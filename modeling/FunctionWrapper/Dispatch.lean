import FunctionWrapper.CallAcceptance
import FunctionWrapper.RunInvariant

/-!
Calls and introspection of the owning wrappers.

The declared signature of a call is known at compile time. At run time the wrapper first decides
between its two stores: the pointers bound in constant evaluation, or the vtable of its storage.

The moves of converted arguments and of results on the way are left out here, as if they kept the
values; `SignatureInterface` is about them.
-/

namespace FunctionWrapper.Dispatch

open FunctionWrapper.Types FunctionWrapper.Traits FunctionWrapper.Signatures
open FunctionWrapper.Callables FunctionWrapper.Storage FunctionWrapper.Lifecycle
open FunctionWrapper.CallAcceptance
open OwnedCells

/-- A failure of the library: `bad_call` or `Empty`, and `bad_signature_call` or
`SignatureMismatch`. -/
inductive Failure | empty | mismatch
  deriving DecidableEq, Repr

inductive Outcome (Ret Exc : Type)
  | value (r : Ret)
  | propagated (e : Exc)
  | failed (f : Failure)
  | terminated
  deriving DecidableEq, Repr

/-- The language around a call. `Raw` are the argument lists of calls and `Arg` the lists that
have been converted to the parameter types of a signature. -/
structure Calls (τ Val Fn Raw Arg Ret Exc : Type) where
  types : Raw → List QType
  /-- `static_cast<Args>(args)...`. -/
  cast : Sig → Raw → Except Exc Arg
  /-- The initialization of by-value parameters from the arguments. -/
  init : Sig → Raw → Except Exc Arg
  /-- `std::invoke` on a stored callable of a category. -/
  invoke : τ → Category → Sig → Val → Arg → Except Exc Ret
  /-- A call through a function pointer. -/
  apply : Sig → Fn → Arg → Except Exc Ret

section Calls

variable {τ Val Fn Raw Arg Ret Exc : Type} (C : Calls τ Val Fn Raw Arg Ret Exc)

def outcome (s : Sig) : Except Exc Ret → Outcome Ret Exc
  | .ok r => .value r
  | .error e => if s.isNoexcept then .terminated else .propagated e

/-- `invoke_slot_` and `try_invoke_slot_`: both convert by `static_cast`, inside the `noexcept`
function when the signature is `noexcept`. -/
def invokeSlot (slots : Slots Fn) (s : Sig) (args : Raw) : Outcome Ret Exc :=
  match slots s with
  | none => .failed .mismatch
  | some pointer => outcome s ((C.cast s args).bind (C.apply s pointer))

lemma outcome_ne_failed (s : Sig) (r : Except Exc Ret) (f : Failure) : outcome s r ≠ .failed f := by
  cases r with
  | ok r => simp [outcome]
  | error e =>
    rw [outcome]
    split <;> simp

/-- The pointer store has no notion of empty. -/
lemma invokeSlot_ne_empty (slots : Slots Fn) (s : Sig) (args : Raw) :
    invokeSlot C slots s args ≠ .failed .empty := by
  rw [invokeSlot]
  split
  · simp
  · exact outcome_ne_failed s _ _

/-- The conversion of the arguments before the exact-signature interface is entered. -/
def convert : Mode → Sig → Raw → Except Exc Arg
  | .call => C.cast
  | .tryCall => C.init

variable [DecidableEq τ] (E : Env τ Val Fn)

/-- `dispatch_*_` and `try_dispatch_*_` of the interface, for the slot of the category. -/
def dispatchInterface (W : World τ Val Fn) (w : ℕ) (cat : Category) (s : Sig) (a : Arg) :
    Option (Outcome Ret Exc) := do
  let storage ← W.storages (.of w)
  match storage.obj with
  | none => return .failed .empty
  | some k =>
    let T ← E.vtables.typeAt storage.vtablePtr
    if E.exactInvocable T cat s then
      let v ← readAt T k W.mem
      return outcome s (C.invoke T cat s v a)
    else return .failed .mismatch

/-- `use_constexpr_storage_`. -/
def useConstexprStorage (W : World τ Val Fn) (c : Constant Fn) (storage : WrapperStorage) : Bool :=
  decide (W.phase = .constant) || (c.active && storage.isEmpty)

/-- `dispatch_call_` and `dispatch_try_call_`, for the signature that was selected. -/
def dispatch (W : World τ Val Fn) (w : ℕ) (mode : Mode) (cat : Category) (s : Sig) (args : Raw) :
    Option (Outcome Ret Exc) := do
  let c ← W.constants w
  let storage ← W.storages (.of w)
  if useConstexprStorage W c storage then return invokeSlot C c.slots s args
  else match convert C mode s args with
    | .error e => return .propagated e
    | .ok a => dispatchInterface C E W w cat s a

end Calls

/-- Calls with one `int`: a target adds its value to it. -/
def sampleCalls : Calls Sample ℕ ℕ ℕ ℕ ℕ Unit where
  types _ := [.val (.arith .int)]
  cast _ := .ok
  init _ := .ok
  invoke _ _ _ v a := .ok (v + a)
  apply _ pointer a := .ok (pointer + a)

/-! ### Introspection -/

variable {τ Val Fn : Type} [DecidableEq τ] (E : Env τ Val Fn) (W : World τ Val Fn) (w : ℕ)

/-- `has_value`. -/
def wrapperHasValue : Option Bool := do
  let c ← W.constants w
  let storage ← W.storages (.of w)
  return if W.phase = .constant then hasValue E c.slots else c.active || !storage.isEmpty

/-- `vtable_has_bound_signature`. -/
def vtableHasBoundSignature (vt : BitVec 64) (s : Sig) : Option Bool :=
  if vt = 0 then some false else (E.vtables.typeAt vt).map (E.supportsSignature · s)

/-- `bound_signatures`. -/
def boundSignatures : Option (List Bool) := do
  let c ← W.constants w
  let storage ← W.storages (.of w)
  if useConstexprStorage W c storage then return E.sigs.map fun s => (c.slots s).isSome
  else E.sigs.mapM (vtableHasBoundSignature E storage.vtablePtr)

/-- `target_type`, with `none` inside for `typeid(void)`. -/
def targetType : Option (Option τ) := do
  let storage ← W.storages (.of w)
  if storage.vtablePtr = 0 then return none else (E.vtables.typeAt storage.vtablePtr).map some

/-- `target<T>`: the pointer it returns. -/
def target (T : τ) : Option (Option Site) := do
  let storage ← W.storages (.of w)
  if storage.vtablePtr = 0 then return none
  else
    let U ← E.vtables.typeAt storage.vtablePtr
    return if U = T then storage.obj else none

end FunctionWrapper.Dispatch
