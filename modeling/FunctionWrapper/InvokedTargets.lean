import FunctionWrapper.InterfaceBase

/-!
The target that a call runs: the object in the storage, or the function behind a pointer that was
bound in constant evaluation.

A call is played once more with targets that return themselves. What comes out of it is what the
call invokes.
-/

namespace FunctionWrapper.InvokedTargets

open FunctionWrapper.Types FunctionWrapper.Traits FunctionWrapper.Signatures
open FunctionWrapper.Callables FunctionWrapper.Storage FunctionWrapper.Lifecycle
open FunctionWrapper.CallAcceptance FunctionWrapper.StorageForms FunctionWrapper.WrapperSpec
open FunctionWrapper.RunInvariant FunctionWrapper.Dispatch FunctionWrapper.DispatchSpec
open FunctionWrapper.InterfaceBase
open OwnedCells

/-- What runs when a call reaches a target. -/
inductive Invoked (τ Val Fn : Type)
  | object (o : Object τ Val)
  | function (s : Sig) (pointer : Fn)

variable {τ Val Fn Raw Arg Ret Exc : Type} [DecidableEq τ]
variable (E : Env τ Val Fn) (C : Calls τ Val Fn Raw Arg Ret Exc)

/-- The same language, with targets that return themselves. -/
def traced : Calls τ Val Fn Raw Arg (Invoked τ Val Fn) Exc where
  types := C.types
  cast := C.cast
  init := C.init
  invoke T _ _ v _ := .ok (.object ⟨T, v⟩)
  apply s pointer _ := .ok (.function s pointer)

def invoked (W : World τ Val Fn) (w : ℕ) (mode : Mode) (cat : Category) (s : Sig) (args : Raw) :
    Option (Invoked τ Val Fn) :=
  match dispatch (traced C) E W w mode cat s args with
  | some (.value t) => some t
  | _ => none

def Invoked.run (s : Sig) (cat : Category) (a : Arg) : Invoked τ Val Fn → Except Exc Ret
  | .object o => C.invoke o.type cat s o.val a
  | .function t pointer => C.apply t pointer a

structure FunctionPointers where
  /-- What the values of a function pointer type point to; null is `none`. -/
  pointee : τ → Option (Val → Option Fn)
  /-- `signature_pointer_t<Sig>`. -/
  signaturePointer : Sig → τ
  pointer_signature : ∀ s, (pointee (signaturePointer s)).isSome = true
  /-- Constructions leave function pointers as they are. -/
  leftover : ∀ luck threw o, (pointee o.type).isSome = true → leftover E luck threw o = o.val

variable {E}

namespace FunctionPointers

variable (F : FunctionPointers E)

def points (o : Object τ Val) : Option Fn := (F.pointee o.type).bind (· o.val)

def Null (o : Object τ Val) : Prop := (F.pointee o.type).isSome = true ∧ F.points o = none

/-- The function that a target is or points to. -/
def reached : Invoked τ Val Fn → Option Fn
  | .object o => F.points o
  | .function _ pointer => some pointer

end FunctionPointers

/-- The type `Sample.pointer` is `int (*)(int)`. -/
def samplePointers (kind : Kind) : FunctionPointers (sampleEnv kind) where
  pointee T := if T = .pointer then some fun v => if v = 0 then none else some v else none
  signaturePointer _ := .pointer
  pointer_signature _ := rfl
  leftover luck threw o := by
    rcases o with ⟨_ | _ | _ | _ | _, v⟩ <;>
      simp [Storage.leftover, sampleEnv]

variable {C} {W : World τ Val Fn} {w : ℕ} {c : Constant Fn} {mode : Mode} {cat : Category}
variable {s : Sig} {args : Raw}

variable (C) in
lemma dispatch_content (h : Inv E W) (hc : W.constants w = some c) (hrun : W.phase = .run)
    (hoff : c.active = false) : dispatch C E W w mode cat s args =
      some (match convert C mode s args with
        | .error e => .propagated e
        | .ok a => contentOutcome E C s cat a (content W (.of w))) := by
  obtain ⟨self, hs⟩ := h.toWhole.storage (w := w) (by simp [Live, hc])
  rw [dispatch_storage C h hc hrun hoff]
  cases convert C mode s args with
  | error e => rfl
  | ok a => exact dispatchInterface_eq h.store hs cat s a

omit [DecidableEq τ] in
@[simp] lemma convert_traced : convert (traced C) mode s args = convert C mode s args := by
  cases mode <;> rfl

lemma invoked_slots_iff (h : Inv E W) (hc : W.constants w = some c)
    (huse : W.phase = .constant ∨ c.active = true) {t : Invoked τ Val Fn} :
    invoked E C W w mode cat s args = some t ↔
      ∃ pointer a, c.slots s = some pointer ∧ C.cast s args = .ok a ∧ .function s pointer = t := by
  rw [invoked, dispatch_slots (traced C) h hc huse, invokeSlot]
  rcases c.slots s with _ | pointer
  · simp
  · cases hcast : C.cast s args with
    | error e => cases hn : s.isNoexcept <;> simp [traced, hcast, Except.bind, outcome, hn]
    | ok a => simp [traced, hcast, Except.bind, outcome]

lemma invoked_content_iff (h : Inv E W) (hc : W.constants w = some c) (hrun : W.phase = .run)
    (hoff : c.active = false) {t : Invoked τ Val Fn} :
    invoked E C W w mode cat s args = some t ↔
      ∃ o a, content W (.of w) = some o ∧ convert C mode s args = .ok a ∧
        E.exactInvocable o.type cat s = true ∧ .object o = t := by
  rw [invoked, dispatch_content (traced C) h hc hrun hoff, convert_traced]
  cases convert C mode s args with
  | error e => simp
  | ok a =>
    rcases content W (.of w) with _ | o
    · simp [contentOutcome]
    · cases hx : E.exactInvocable o.type cat s <;> simp [contentOutcome, hx, traced, outcome]

/-! ### Targets and outcomes -/

theorem outcome_of_invoked (h : Inv E W) (hw : Live W w) {t : Invoked τ Val Fn}
    (ht : invoked E C W w mode cat s args = some t) :
    ∃ a, dispatch C E W w mode cat s args = some (outcome s (t.run C s cat a)) := by
  obtain ⟨c, hc⟩ := Option.ne_none_iff_exists'.mp hw
  by_cases huse : W.phase = .constant ∨ c.active = true
  · obtain ⟨pointer, a, hslot, hcast, rfl⟩ := (invoked_slots_iff h hc huse).mp ht
    refine ⟨a, ?_⟩
    simp [dispatch_slots C h hc huse, invokeSlot, hslot, hcast, Invoked.run, Except.bind]
  · obtain ⟨hrun, hoff⟩ := run_of_not_slots huse
    obtain ⟨o, a, ho, ha, hx, rfl⟩ := (invoked_content_iff h hc hrun hoff).mp ht
    refine ⟨a, ?_⟩
    simp [dispatch_content C h hc hrun hoff, ha, ho, contentOutcome, hx, Invoked.run]

end FunctionWrapper.InvokedTargets
