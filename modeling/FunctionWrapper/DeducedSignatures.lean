import FunctionWrapper.ExactMatch
import FunctionWrapper.CallAcceptance

/-!
Signatures that are deduced from callables, and lists of them.

`fn_sig` reads the signature off a function pointer, a pointer to a member function, or the only
call operator of a class, and drops the qualifiers of a member function. The array factories declare
the deduced signatures without repetitions.
-/

namespace FunctionWrapper.DeducedSignatures

open FunctionWrapper.Types FunctionWrapper.Traits FunctionWrapper.Signatures
open FunctionWrapper.Selector FunctionWrapper.CallAcceptance FunctionWrapper.ExactMatch

/-- What stands behind the parameter list of a member function, besides `noexcept`. -/
structure Qualifiers where
  isConst : Bool
  isVolatile : Bool
  ref : Ref
  deriving DecidableEq, Repr

/-- The types that `fn_sig` tells apart: pointers to functions and to member functions, classes by
the type of the address of their call operator, and others, among them the classes whose call
operator is overloaded or a template. -/
inductive CallableType
  | pointer (s : Sig)
  | member (q : Qualifiers) (s : Sig)
  | functor (callOperator : CallableType)
  | other
  deriving DecidableEq, Repr

/-- `fn_sig`, with `none` for its primary template. -/
def fnSig : CallableType → Option Sig
  | .pointer s => some s
  | .member q s => if q.isVolatile then none else some s
  | .functor callOperator => fnSig callOperator
  | .other => none

section Unique

variable {α : Type*} [DecidableEq α]

/-- `tl_unique_impl<typelist<Out...>, Ts...>`. -/
def tlUniqueImpl (Out : List α) : List α → List α
  | [] => Out
  | T :: Rest => if T ∈ Out then tlUniqueImpl Out Rest else tlUniqueImpl (Out ++ [T]) Rest

/-- `unique_tl<Ts...>`. -/
def uniqueTl (Ts : List α) : List α := tlUniqueImpl [] Ts

lemma tlUniqueImpl_eq_loop (Out Ts : List α) :
    tlUniqueImpl Out Ts = List.eraseDupsBy.loop (· == ·) Ts Out.reverse := by
  induction Ts generalizing Out with
  | nil => simp [tlUniqueImpl, List.eraseDupsBy.loop]
  | cons T Rest ih =>
    have hany : (Out.reverse.any fun b => T == b) = decide (T ∈ Out) := by
      simp [← List.contains_eq_any_beq]
    rw [tlUniqueImpl, List.eraseDupsBy.loop, hany]
    by_cases hT : T ∈ Out
    · simp [hT, ih]
    · simp [hT, ih]

/-- The first occurrences are kept, in their order. -/
theorem uniqueTl_eq (Ts : List α) : uniqueTl Ts = Ts.eraseDups := tlUniqueImpl_eq_loop [] Ts

@[simp] lemma mem_uniqueTl {Ts : List α} {T : α} : T ∈ uniqueTl Ts ↔ T ∈ Ts := by
  rw [uniqueTl_eq, List.mem_eraseDups]

lemma tlUniqueImpl_nodup {Out : List α} (h : Out.Nodup) (Ts : List α) :
    (tlUniqueImpl Out Ts).Nodup := by
  induction Ts generalizing Out with
  | nil => exact h
  | cons T Rest ih =>
    rw [tlUniqueImpl]
    split
    · exact ih h
    · next hT =>
      refine ih (List.Nodup.append h (List.nodup_singleton T) ?_)
      simpa using hT

lemma uniqueTl_nodup (Ts : List α) : (uniqueTl Ts).Nodup := tlUniqueImpl_nodup .nil Ts

end Unique

/-! ### Conflicts -/

lemma conflicting_iff (s t : Sig) :
    conflictingSignaturePair s t = false ↔ (s.base = t.base → s = t) := by
  obtain ⟨r, as, ns⟩ := s
  obtain ⟨r', as', nt⟩ := t
  cases ns <;> cases nt <;> simp [conflictingSignaturePair, Sig.base]

lemma hasConflicting_iff (sigs : List Sig) : hasConflictingSignatures sigs = false ↔
    ∀ s ∈ sigs, ∀ t ∈ sigs, s.base = t.base → s = t := by
  induction sigs with
  | nil => simp [hasConflictingSignatures]
  | cons s rest ih =>
    simp only [hasConflictingSignatures, Bool.or_eq_false_iff, List.any_eq_false, Bool.not_eq_true,
      conflicting_iff, ih, List.forall_mem_cons, forall_const, true_and]
    constructor
    · rintro ⟨hs, hrest⟩
      exact ⟨hs, fun t ht => ⟨fun e => (hs t ht e.symm).symm, hrest t ht⟩⟩
    · rintro ⟨hs, hrest⟩
      exact ⟨hs, fun t ht => (hrest t ht).2⟩

end FunctionWrapper.DeducedSignatures
