import FunctionWrapper.Introspection

/-!
`has_bound_signature` and `bound_signatures`, beside the calls.

A vtable has three call slots for each declared signature, which a factory fills from the traits of
the stored type. A call looks at the slot of its value category, the introspection at all three.
-/

namespace FunctionWrapper.BoundSignatures

open FunctionWrapper.Types FunctionWrapper.Traits FunctionWrapper.Signatures
open FunctionWrapper.Callables FunctionWrapper.Storage FunctionWrapper.Lifecycle
open FunctionWrapper.CallAcceptance FunctionWrapper.StorageForms FunctionWrapper.WrapperSpec
open FunctionWrapper.RunInvariant FunctionWrapper.Dispatch FunctionWrapper.InterfaceBase
open FunctionWrapper.InvokedTargets FunctionWrapper.Introspection FunctionWrapper.DispatchSpec
open OwnedCells

/-- `std::invoke` on the stored types, in a category of the callable. -/
structure Invocability (τ : Type) where
  /-- `std::invoke_result_t`, where it is well-formed. -/
  invokeResult : τ → Category → List QType → Option QType
  /-- The operator `noexcept` on the expression. -/
  nothrow : τ → Category → List QType → Bool
  /-- A parameter is initialized without throwing from what has been forwarded to it. -/
  nothrowParameter : QType → Bool

/-- `signature_vtable_entry`: which of the three call slots are filled. -/
structure SignatureEntry where
  lcall : Bool
  clcall : Bool
  rcall : Bool
  deriving DecidableEq, Repr

def SignatureEntry.slot (e : SignatureEntry) : Category → Bool
  | .l => e.lcall
  | .cl => e.clcall
  | .r => e.rcall

variable {τ Val Fn Raw Arg Ret Exc : Type}

namespace Invocability

variable (I : Invocability τ)

def isExactInvocableR (T : τ) (cat : Category) (R : QType) (Args : List QType) : Bool :=
  decide (I.invokeResult T cat Args = some R)

def isExactNothrowInvocableR (T : τ) (cat : Category) (R : QType) (Args : List QType) : Bool :=
  decide (I.invokeResult T cat Args = some R) && I.nothrow T cat Args

/-- `signature_entry_factory<Stored, Sig>::make`. -/
def signatureEntry (Stored : τ) (s : Sig) : SignatureEntry :=
  if s.isNoexcept then
    { lcall := I.isExactNothrowInvocableR Stored .l s.ret s.args
      clcall := I.isExactNothrowInvocableR Stored .cl s.ret s.args
      rcall := I.isExactNothrowInvocableR Stored .r s.ret s.args }
  else
    { lcall := I.isExactInvocableR Stored .l s.ret s.args
      clcall := I.isExactInvocableR Stored .cl s.ret s.args
      rcall := I.isExactInvocableR Stored .r s.ret s.args }

def wrapperClass (E : Env τ Val Fn) : Env τ Val Fn :=
  { E with exactInvocable := fun T cat s => (I.signatureEntry T s).slot cat }

variable {I}

end Invocability

/-! ### Agreement -/

variable [DecidableEq τ] (P : Program) (I : Invocability τ) (E : Env τ Val Fn)
variable (C : Calls τ Val Fn Raw Arg Ret Exc)

variable {P I E C} {W : World τ Val Fn} {w : ℕ} {mode : Mode} {s : Sig} {args : Raw}

/-- The sample types take an `int` and return one. Only the counter never throws, and not as an
rvalue. -/
def sampleTraits : Invocability Sample where
  invokeResult _ _ Args := if Args = [.val (.arith .int)] then some (.val (.arith .int)) else none
  nothrow T cat _ := decide (T = .counter) && decide (cat ≠ .r)
  nothrowParameter _ := true

/-- Wrappers for `int(int) noexcept`. -/
def noexceptEnv : Env Sample ℕ ℕ :=
  sampleTraits.wrapperClass
    { sampleEnv .moveOnly with sigs := [⟨.val (.arith .int), [.val (.arith .int)], true⟩] }

def counterWorld : World Sample ℕ ℕ := play noexceptEnv [.start, .construct 0 (.object ⟨.counter, 5⟩)]

lemma counterWorld_reachable : Runs.Reachable (system noexceptEnv) counterWorld :=
  (started_reachable noexceptEnv).step
    (a := ⟨.construct 0 (.object ⟨.counter, 5⟩), ⟨false, false, 1⟩, false⟩)
    ⟨⟨not_not_intro rfl, rfl, fun e => by cases e⟩, rfl, rfl⟩

end FunctionWrapper.BoundSignatures
