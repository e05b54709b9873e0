import FunctionWrapper.CallResult
import FunctionWrapper.Dispatch
import FunctionWrapper.TracedRuns

/-!
The exact-signature interface of the wrappers, `call` and `operator()` beside `try_call`.

A wrapper has one base of this kind for each declared signature. Its functions take arguments of
exactly the parameter types and go through the slot for the value category of the wrapper. The
arguments are moved from function to function on the way to the target, and `try_call` moves the
result of the target.
-/

namespace FunctionWrapper.SignatureInterface

open FunctionWrapper.Types FunctionWrapper.Signatures FunctionWrapper.Callables
open FunctionWrapper.Storage FunctionWrapper.Lifecycle FunctionWrapper.StorageForms
open FunctionWrapper.StorageSpec FunctionWrapper.RunInvariant FunctionWrapper.Dispatch
open FunctionWrapper.CallResult
open FunctionWrapper.CallResult.TryCallResult (success)
open OwnedCells TracedRuns

/-- A call of a stored object: as which category, and with which parameter values. -/
structure Invocation (τ Val Arg : Type) where
  type : τ
  category : Category
  val : Val
  args : Arg
  deriving DecidableEq, Repr

/-- How values are passed on. -/
structure Passing (Arg Ret Exc : Type) extends Moves Ret Exc where
  /-- `std::forward<Args>(args)...`, which initializes parameters of the same types. -/
  forward : Sig → Arg → Except Exc Arg

namespace Passing

variable {Arg Ret Exc : Type} (V : Passing Arg Ret Exc)

def pass (s : Sig) (a : Arg) : Except (Thrown Exc) Arg := (V.forward s a).mapError .passing

/-- The arguments of the target: they are passed on by the function of the interface, by the body
that it goes to, and by the thunk. -/
def passed (s : Sig) (a : Arg) : Except (Thrown Exc) Arg :=
  (V.pass s a).bind fun a => (V.pass s a).bind (V.pass s)

def keeping : Passing Arg Ret Exc := { Moves.keeping with forward := fun _ a => .ok a }

/-- A function on the arguments that are passed to it. -/
def passOn {κ α : Type} (s : Sig) (a : Arg) (f : Arg → Option (Run κ (Thrown Exc) α)) :
    Option (Run κ (Thrown Exc) α) :=
  match V.pass s a with
  | .error e => some (.throw e)
  | .ok a => f a

lemma passOn_eq {κ α : Type} {s : Sig} {a : Arg} {f : Arg → Option (Run κ (Thrown Exc) α)}
    {g : Arg → Run κ (Thrown Exc) α} (h : ∀ a, f a = some (g a)) :
    V.passOn s a f = some ((Run.lift (V.pass s a)).bind g) := by
  unfold passOn
  cases V.pass s a <;> simp [h, Run.lift, Run.bind, Run.throw, Ending.ofExcept]

end Passing

/-- A thunk takes the object by its address, and reads it there. -/
abbrev Thunk (τ Val Arg Ret Exc : Type) :=
  Mem τ Val → Site → Arg → Option (Run (Invocation τ Val Arg) (Thrown Exc) Ret)

structure SignatureVtableEntry (τ Val Arg Ret Exc : Type) where
  lcall : Option (Thunk τ Val Arg Ret Exc)
  clcall : Option (Thunk τ Val Arg Ret Exc)
  rcall : Option (Thunk τ Val Arg Ret Exc)

variable {τ Val Fn Raw Arg Ret Exc : Type} [DecidableEq τ]
variable (V : Passing Arg Ret Exc) (E : Env τ Val Fn) (C : Calls τ Val Fn Raw Arg Ret Exc)

/-- `std::invoke` on the stored object. -/
def invoke (T : τ) (cat : Category) (s : Sig) : Thunk τ Val Arg Ret Exc := fun m k a =>
  (readAt T k m).map fun v => (Run.lift (V.pass s a)).bind fun a =>
    .call ⟨T, cat, v, a⟩ ((C.invoke T cat s v a).mapError .target)

def invokeL (T : τ) (s : Sig) : Thunk τ Val Arg Ret Exc := invoke V C T .l s
def invokeCl (T : τ) (s : Sig) : Thunk τ Val Arg Ret Exc := invoke V C T .cl s
def invokeR (T : τ) (s : Sig) : Thunk τ Val Arg Ret Exc := invoke V C T .r s

def invokeLNoexcept (T : τ) (s : Sig) : Thunk τ Val Arg Ret Exc := fun m k a =>
  (invokeL V C T s m k a).map Run.noexcept

def invokeClNoexcept (T : τ) (s : Sig) : Thunk τ Val Arg Ret Exc := fun m k a =>
  (invokeCl V C T s m k a).map Run.noexcept

def invokeRNoexcept (T : τ) (s : Sig) : Thunk τ Val Arg Ret Exc := fun m k a =>
  (invokeR V C T s m k a).map Run.noexcept

/-- `signature_entry_factory<Stored, Sig>::make`, for either kind of signature. -/
def signatureEntryFactory (T : τ) (s : Sig) : SignatureVtableEntry τ Val Arg Ret Exc where
  lcall := if E.exactInvocable T .l s then
    some (if s.isNoexcept then invokeLNoexcept V C T s else invokeL V C T s) else none
  clcall := if E.exactInvocable T .cl s then
    some (if s.isNoexcept then invokeClNoexcept V C T s else invokeCl V C T s) else none
  rcall := if E.exactInvocable T .r s then
    some (if s.isNoexcept then invokeRNoexcept V C T s else invokeR V C T s) else none

section Bodies

variable (m : Mem τ Val) (self : WrapperStorage) (s : Sig)
variable (slot : SignatureVtableEntry τ Val Arg Ret Exc → Option (Thunk τ Val Arg Ret Exc)) (a : Arg)

/-- The entry of the signature in the vtable of `self`. -/
def entry : Option (SignatureVtableEntry τ Val Arg Ret Exc) :=
  (E.vtables.typeAt self.vtablePtr).map (signatureEntryFactory V E C · s)

/-- The body of `try_dispatch_l_`, `try_dispatch_cl_` and `try_dispatch_r_`, which read different
slots. -/
def tryDispatchBody : Option (Run (Invocation τ Val Arg) (Thrown Exc) (TryCallResult Ret)) :=
  match self.obj with
  | none => some (.ret .empty)
  | some obj => do
    let e ← entry V E C self s
    match slot e with
    | none => return .ret .signatureMismatch
    | some call =>
      let r ← V.passOn s a (call m obj)
      return r.bind fun v => .lift ((success V.toMoves s.ret (returned s v)).mapError .passing)

/-- The body of `dispatch_l_`, `dispatch_cl_` and `dispatch_r_`. A `void` function returns no
value. -/
def dispatchBody : Option (Run (Invocation τ Val Arg) (Thrown Exc) (Option Ret)) :=
  match self.obj with
  | none => some (.throw .badCall)
  | some obj => do
    let e ← entry V E C self s
    match slot e with
    | none => return .throw .badSignatureCall
    | some call =>
      let r ← V.passOn s a (call m obj)
      return r.bind fun v => .ret (returned s v)

end Bodies

variable (m : Mem τ Val) (self : WrapperStorage) (s : Sig) (cat : Category) (a : Arg)

/-! ### `signature_interface<Derived, R(Args...)>` -/

namespace Plain

def tryDispatchL := tryDispatchBody V E C m self s (·.lcall) a
def tryDispatchCl := tryDispatchBody V E C m self s (·.clcall) a
def tryDispatchR := tryDispatchBody V E C m self s (·.rcall) a

def dispatchL := dispatchBody V E C m self s (·.lcall) a
def dispatchCl := dispatchBody V E C m self s (·.clcall) a
def dispatchR := dispatchBody V E C m self s (·.rcall) a

def tryCall : Option (Run (Invocation τ Val Arg) (Thrown Exc) (TryCallResult Ret)) :=
  V.passOn s a fun a => match cat with
    | .l => tryDispatchL V E C m self s a
    | .cl => tryDispatchCl V E C m self s a
    | .r => tryDispatchR V E C m self s a

def call : Option (Run (Invocation τ Val Arg) (Thrown Exc) (Option Ret)) :=
  V.passOn s a fun a => match cat with
    | .l => dispatchL V E C m self s a
    | .cl => dispatchCl V E C m self s a
    | .r => dispatchR V E C m self s a

def callOperator : Option (Run (Invocation τ Val Arg) (Thrown Exc) (Option Ret)) :=
  V.passOn s a fun a => match cat with
    | .l => dispatchL V E C m self s a
    | .cl => dispatchCl V E C m self s a
    | .r => dispatchR V E C m self s a

end Plain

/-! ### `signature_interface<Derived, R(Args...) noexcept>` -/

namespace Noexcept

def tryDispatchL := (tryDispatchBody V E C m self s (·.lcall) a).map Run.noexcept
def tryDispatchCl := (tryDispatchBody V E C m self s (·.clcall) a).map Run.noexcept
def tryDispatchR := (tryDispatchBody V E C m self s (·.rcall) a).map Run.noexcept

def dispatchL := dispatchBody V E C m self s (·.lcall) a
def dispatchCl := dispatchBody V E C m self s (·.clcall) a
def dispatchR := dispatchBody V E C m self s (·.rcall) a

def tryCall : Option (Run (Invocation τ Val Arg) (Thrown Exc) (TryCallResult Ret)) :=
  (V.passOn s a fun a => match cat with
    | .l => tryDispatchL V E C m self s a
    | .cl => tryDispatchCl V E C m self s a
    | .r => tryDispatchR V E C m self s a).map Run.noexcept

def call : Option (Run (Invocation τ Val Arg) (Thrown Exc) (Option Ret)) :=
  V.passOn s a fun a => match cat with
    | .l => dispatchL V E C m self s a
    | .cl => dispatchCl V E C m self s a
    | .r => dispatchR V E C m self s a

def callOperator : Option (Run (Invocation τ Val Arg) (Thrown Exc) (Option Ret)) :=
  V.passOn s a fun a => match cat with
    | .l => dispatchL V E C m self s a
    | .cl => dispatchCl V E C m self s a
    | .r => dispatchR V E C m self s a

end Noexcept

/-- The specialization for the signature. For a value that cannot be moved, `try_call` does not
compile. -/
def tryCall : Option (Run (Invocation τ Val Arg) (Thrown Exc) (TryCallResult Ret)) := do
  guard (V.succeeds s)
  if s.isNoexcept then Noexcept.tryCall V E C m self s cat a
  else Plain.tryCall V E C m self s cat a

def call : Option (Run (Invocation τ Val Arg) (Thrown Exc) (Option Ret)) :=
  if s.isNoexcept then Noexcept.call V E C m self s cat a else Plain.call V E C m self s cat a

def callOperator : Option (Run (Invocation τ Val Arg) (Thrown Exc) (Option Ret)) :=
  if s.isNoexcept then Noexcept.callOperator V E C m self s cat a
  else Plain.callOperator V E C m self s cat a

/-! ### The course of a call -/

def SignatureVtableEntry.slot (cat : Category) (e : SignatureVtableEntry τ Val Arg Ret Exc) :
    Option (Thunk τ Val Arg Ret Exc) :=
  match cat with
  | .l => e.lcall
  | .cl => e.clcall
  | .r => e.rcall

lemma call_eq_body : call V E C m self s cat a =
    V.passOn s a (dispatchBody V E C m self s (·.slot cat)) := by
  unfold call
  cases cat <;> split <;> rfl

lemma callOperator_eq_body : callOperator V E C m self s cat a =
    V.passOn s a (dispatchBody V E C m self s (·.slot cat)) := by
  unfold callOperator
  cases cat <;> split <;> rfl

lemma tryCall_eq_body (h : V.succeeds s = true) : tryCall V E C m self s cat a =
    (V.passOn s a (tryDispatchBody V E C m self s (·.slot cat))).map
      (if s.isNoexcept then Run.noexcept else id) := by
  simp only [tryCall, h, guard, if_true]
  cases hs : s.isNoexcept with
  | false => cases cat <;> simp [Plain.tryCall, Plain.tryDispatchL, Plain.tryDispatchCl,
      Plain.tryDispatchR, SignatureVtableEntry.slot]
  | true =>
    -- `noexcept` in the body as well changes nothing
    have hbody : ∀ f : Arg → Option (Run (Invocation τ Val Arg) (Thrown Exc) (TryCallResult Ret)),
        (V.passOn s a fun a => (f a).map Run.noexcept).map Run.noexcept =
          (V.passOn s a f).map Run.noexcept := by
      intro f
      unfold Passing.passOn
      cases V.pass s a with
      | error e => rfl
      | ok a => cases hf : f a <;> simp [hf]
    cases cat <;> exact hbody _

/-- The stored object is called once with the arguments that the thunk passes on, and the thunk is
`noexcept` where the signature is. -/
def targetRun (o : Object τ Val) (a : Arg) : Run (Invocation τ Val Arg) (Thrown Exc) Ret :=
  let r := (Run.lift (V.pass s a)).bind fun a =>
    .call ⟨o.type, cat, o.val, a⟩ ((C.invoke o.type cat s o.val a).mapError .target)
  if s.isNoexcept then r.noexcept else r

lemma thunk_eq (T : τ) :
    (if s.isNoexcept then fun m k a => (invoke V C T cat s m k a).map Run.noexcept
      else invoke V C T cat s) =
    fun m k a => (readAt T k m).map fun v => targetRun V C s cat ⟨T, v⟩ a := by
  funext m k a
  cases hs : s.isNoexcept <;> cases hread : readAt T k m <;> simp [invoke, targetRun, hs, hread]

lemma slot_signatureEntryFactory (T : τ) : (signatureEntryFactory V E C T s).slot cat =
    if E.exactInvocable T cat s then
      some fun m k a => (readAt T k m).map fun v => targetRun V C s cat ⟨T, v⟩ a
    else none := by
  cases cat
  · exact congrArg (fun t => if E.exactInvocable T .l s then some t else none) (thunk_eq V C s .l T)
  · exact congrArg (fun t => if E.exactInvocable T .cl s then some t else none)
      (thunk_eq V C s .cl T)
  · exact congrArg (fun t => if E.exactInvocable T .r s then some t else none) (thunk_eq V C s .r T)

variable {V E C m self s cat a} {p : Place} {c : Option (Object τ Val)}

lemma entry_of_holds {o : Object τ Val} (h : Holds E m p self (some o)) :
    entry V E C self s = some (signatureEntryFactory V E C o.type s) ∧
      ∃ k, self.obj = some k ∧ m.get k = some o := by
  generalize e : some o = c at h
  cases h with
  | empty k => cases e
  | small o' _ _ hget =>
    obtain rfl := Option.some.inj e
    exact ⟨by simp [entry, E.vtables.typeAt_address], _, rfl, hget⟩
  | heap o' n _ _ hget =>
    obtain rfl := Option.some.inj e
    exact ⟨by simp [entry, E.vtables.typeAt_address], _, rfl, hget⟩

section Runs

variable (V : Passing Arg Ret Exc) (E : Env τ Val Fn) (C : Calls τ Val Fn Raw Arg Ret Exc)
variable (s : Sig) (cat : Category)

/-- What a body does on a storage in order, until it hands something on: a failure, or the result of
the target. -/
def bodyRun (c : Option (Object τ Val)) (a : Arg) :
    Run (Invocation τ Val Arg) (Thrown Exc) (Failure ⊕ Option Ret) :=
  match c with
  | none => .ret (.inl .empty)
  | some o =>
    if E.exactInvocable o.type cat s then
      ((Run.lift (V.pass s a)).bind (targetRun V C s cat o)).bind fun v => .ret (.inr (returned s v))
    else .ret (.inl .mismatch)

/-- `call` and `operator()` throw the failures. -/
def callEnd : Failure ⊕ Option Ret → Run (Invocation τ Val Arg) (Thrown Exc) (Option Ret)
  | .inl .empty => .throw .badCall
  | .inl .mismatch => .throw .badSignatureCall
  | .inr v => .ret v

/-- `try_call` reports them. -/
def tryCallEnd :
    Failure ⊕ Option Ret → Run (Invocation τ Val Arg) (Thrown Exc) (TryCallResult Ret)
  | .inl .empty => .ret .empty
  | .inl .mismatch => .ret .signatureMismatch
  | .inr v => .lift ((success V.toMoves s.ret v).mapError .passing)

/-- What both functions do. -/
def dispatchRun (c : Option (Object τ Val)) (a : Arg) :
    Run (Invocation τ Val Arg) (Thrown Exc) (Failure ⊕ Option Ret) :=
  (Run.lift (V.pass s a)).bind (bodyRun V E C s cat c)

def callRun (c : Option (Object τ Val)) (a : Arg) :
    Run (Invocation τ Val Arg) (Thrown Exc) (Option Ret) :=
  (dispatchRun V E C s cat c a).bind callEnd

def tryCallRun (c : Option (Object τ Val)) (a : Arg) :
    Run (Invocation τ Val Arg) (Thrown Exc) (TryCallResult Ret) :=
  let r := (dispatchRun V E C s cat c a).bind (tryCallEnd V s)
  if s.isNoexcept then r.noexcept else r

end Runs

/-- The arguments are passed on to a thunk that finds its object. -/
lemma passOn_thunk {o : Object τ Val} {k : Site} (hget : m.get k = some o) :
    V.passOn s a (fun a => (readAt o.type k m).map fun v => targetRun V C s cat ⟨o.type, v⟩ a) =
      some ((Run.lift (V.pass s a)).bind (targetRun V C s cat o)) :=
  V.passOn_eq fun a => by rw [readAt_eq hget, Option.map_some]

lemma dispatchBody_eq (h : Holds E m p self c) : dispatchBody V E C m self s (·.slot cat) a =
    some ((bodyRun V E C s cat c a).bind callEnd) := by
  rcases c with _ | o
  · cases h with
    | empty k => rfl
  · obtain ⟨hentry, k, hobj, hget⟩ := entry_of_holds (V := V) (C := C) (s := s) h
    simp only [dispatchBody, hobj, hentry, Option.bind_eq_bind, Option.bind_some,
      slot_signatureEntryFactory, bodyRun]
    cases hx : E.exactInvocable o.type cat s with
    | false => rfl
    | true =>
      simp only [if_true, passOn_thunk hget, Option.bind_some, Run.bind_assoc]
      rfl

lemma tryDispatchBody_eq (h : Holds E m p self c) :
    tryDispatchBody V E C m self s (·.slot cat) a =
      some ((bodyRun V E C s cat c a).bind (tryCallEnd V s)) := by
  rcases c with _ | o
  · cases h with
    | empty k => rfl
  · obtain ⟨hentry, k, hobj, hget⟩ := entry_of_holds (V := V) (C := C) (s := s) h
    simp only [tryDispatchBody, hobj, hentry, Option.bind_eq_bind, Option.bind_some,
      slot_signatureEntryFactory, bodyRun]
    cases hx : E.exactInvocable o.type cat s with
    | false => rfl
    | true =>
      simp only [if_true, passOn_thunk hget, Option.bind_some, Run.bind_assoc]
      rfl

theorem call_eq (h : Holds E m p self c) :
    call V E C m self s cat a = some (callRun V E C s cat c a) := by
  rw [call_eq_body, V.passOn_eq fun _ => dispatchBody_eq h, callRun, dispatchRun, Run.bind_assoc]

theorem callOperator_eq (h : Holds E m p self c) :
    callOperator V E C m self s cat a = some (callRun V E C s cat c a) := by
  rw [callOperator_eq_body, V.passOn_eq fun _ => dispatchBody_eq h, callRun, dispatchRun,
    Run.bind_assoc]

theorem tryCall_eq (h : Holds E m p self c) (hmoves : V.succeeds s = true) :
    tryCall V E C m self s cat a = some (tryCallRun V E C s cat c a) := by
  rw [tryCall_eq_body V E C m self s cat a hmoves, V.passOn_eq fun _ => tryDispatchBody_eq h,
    Option.map_some, tryCallRun, dispatchRun, Run.bind_assoc]
  cases s.isNoexcept <;> rfl

lemma tryCall_eq_none (hmoves : V.succeeds s = false) : tryCall V E C m self s cat a = none := by
  simp [tryCall, hmoves, guard]

def targetEnding (s : Sig) : Except Exc Ret → Ending (Thrown Exc) (Failure ⊕ Option Ret)
  | .ok r => .returns (.inr (returned s r))
  | .error e => if s.isNoexcept then .terminates else .throws (.target e)

/-- How a call goes: the arguments do not arrive, there is nothing to call, or the target runs
once. -/
inductive Course (V : Passing Arg Ret Exc) (E : Env τ Val Fn) (C : Calls τ Val Fn Raw Arg Ret Exc)
    (s : Sig) (cat : Category) (c : Option (Object τ Val)) (a : Arg) :
    Run (Invocation τ Val Arg) (Thrown Exc) (Failure ⊕ Option Ret) → Prop
  | stopped {ending} (ha : ∀ a', V.passed s a ≠ .ok a')
      (hend : ending = .terminates ∨ ∃ e, ending = .throws (.passing e)) :
      Course V E C s cat c a ⟨[], ending⟩
  | empty (hc : c = none) : Course V E C s cat c a (.ret (.inl .empty))
  | mismatch {o} (hc : c = some o) (hx : E.exactInvocable o.type cat s = false) :
      Course V E C s cat c a (.ret (.inl .mismatch))
  | ran {o a'} (hc : c = some o) (hx : E.exactInvocable o.type cat s = true)
      (ha : V.passed s a = .ok a') : Course V E C s cat c a
        ⟨[⟨o.type, cat, o.val, a'⟩], targetEnding s (C.invoke o.type cat s o.val a')⟩

omit [DecidableEq τ] in
lemma course_dispatchRun : Course V E C s cat c a (dispatchRun V E C s cat c a) := by
  have herror : ∀ {a e}, V.pass s a = .error e → ∃ x, e = .passing x := by
    intro a e he
    unfold Passing.pass at he
    cases hf : V.forward s a <;> simp [hf, Except.mapError] at he
    exact ⟨_, he.symm⟩
  rw [dispatchRun]
  cases h₁ : V.pass s a with
  | error e =>
    obtain ⟨x, rfl⟩ := herror h₁
    exact .stopped (by simp [Passing.passed, h₁, Except.bind]) (.inr ⟨x, rfl⟩)
  | ok a₁ =>
    rw [Run.lift_ok, Run.ret_bind]
    rcases c with _ | o
    · exact .empty rfl
    · rw [bodyRun]
      cases hx : E.exactInvocable o.type cat s with
      | false => exact .mismatch rfl hx
      | true =>
        simp only [if_true]
        cases h₂ : V.pass s a₁ with
        | error e =>
          obtain ⟨x, rfl⟩ := herror h₂
          exact .stopped (by simp [Passing.passed, h₁, h₂, Except.bind]) (.inr ⟨x, rfl⟩)
        | ok a₂ =>
          rw [Run.lift_ok, Run.ret_bind, targetRun]
          cases h₃ : V.pass s a₂ with
          | error e =>
            obtain ⟨x, rfl⟩ := herror h₃
            have hstop : ∀ a', V.passed s a ≠ .ok a' := by
              simp [Passing.passed, h₁, h₂, h₃, Except.bind]
            cases hs : s.isNoexcept with
            | false => exact .stopped hstop (.inr ⟨x, rfl⟩)
            | true => exact .stopped hstop (.inl rfl)
          | ok a₃ =>
            have harrive : V.passed s a = .ok a₃ := by
              simp [Passing.passed, h₁, h₂, h₃, Except.bind]
            convert Course.ran (C := C) rfl hx harrive using 1
            rw [Run.lift_ok, Run.ret_bind, Run.bind_ret]
            cases hs : s.isNoexcept <;> cases hi : C.invoke o.type cat s o.val a₃ <;>
              simp [Run.call, Run.noexcept, Except.mapError, Ending.ofExcept, Ending.map,
                targetEnding, hs]

/-- `call` and `try_call` end alike where the target runs, once, or where there is nothing to
call. -/
structure Agree (V : Passing Arg Ret Exc) (E : Env τ Val Fn) (s : Sig) (cat : Category)
    (c : Option (Object τ Val)) (a : Arg)
    (x : Run (Invocation τ Val Arg) (Thrown Exc) (Option Ret))
    (y : Run (Invocation τ Val Arg) (Thrown Exc) (TryCallResult Ret)) : Prop where
  value : ∀ v, x.ending = .returns v ↔ y.ending = .returns ⟨.success, v⟩
  propagated : ∀ e, x.ending = .throws (.target e) ↔ y.ending = .throws (.target e)
  empty : x.ending = .throws .badCall ↔ y.ending = .returns .empty
  mismatch : x.ending = .throws .badSignatureCall ↔ y.ending = .returns .signatureMismatch
  once : (∃ v, x.ending = .returns v) ∨ (∃ e, x.ending = .throws (.target e)) →
    ∃ o a', c = some o ∧ E.exactInvocable o.type cat s = true ∧ V.passed s a = .ok a' ∧
      x.calls = [⟨o.type, cat, o.val, a'⟩] ∧ y.calls = [⟨o.type, cat, o.val, a'⟩]
  never : x.ending = .throws .badCall ∨ x.ending = .throws .badSignatureCall →
    x.calls = [] ∧ y.calls = []
  slot : x.ending = .throws .badSignatureCall →
    ∃ o, c = some o ∧ E.exactInvocable o.type cat s = false

/-- The result of the target is in the `try_call_result` as it was returned. -/
def HandsOn (V : Passing Arg Ret Exc) (C : Calls τ Val Fn Raw Arg Ret Exc) (E : Env τ Val Fn)
    (s : Sig) (cat : Category) (c : Option (Object τ Val)) (a : Arg) : Prop :=
  ∀ o a' r, c = some o → E.exactInvocable o.type cat s = true → V.passed s a = .ok a' →
    C.invoke o.type cat s o.val a' = .ok r →
      success V.toMoves s.ret (returned s r) = .ok ⟨.success, returned s r⟩

omit [DecidableEq τ] in
lemma handsOn_iff {o : Object τ Val} {a' : Arg} (hx : E.exactInvocable o.type cat s = true)
    (ha : V.passed s a = .ok a') : HandsOn V C E s cat (some o) a ↔
      ∀ r, C.invoke o.type cat s o.val a' = .ok r →
        success V.toMoves s.ret (returned s r) = .ok ⟨.success, returned s r⟩ := by
  constructor
  · exact fun h r => h o a' r rfl hx ha
  · rintro h o₁ a₁ r ⟨⟩ - ha₁
    obtain rfl : a' = a₁ := Except.ok.inj (ha.symm.trans ha₁)
    exact h r

omit [DecidableEq τ] in
lemma agree_returned_iff {o : Object τ Val} {a' : Arg} (hx : E.exactInvocable o.type cat s = true)
    (ha : V.passed s a = .ok a') {v : Option Ret}
    {y : Run (Invocation τ Val Arg) (Thrown Exc) (TryCallResult Ret)}
    (hcalls : y.calls = [⟨o.type, cat, o.val, a'⟩])
    (hreturns : ∀ r, y.ending = .returns r ↔ success V.toMoves s.ret v = .ok r) :
    Agree V E s cat (some o) a ⟨[⟨o.type, cat, o.val, a'⟩], .returns v⟩ y ↔
      success V.toMoves s.ret v = .ok ⟨.success, v⟩ := by
  constructor
  · intro h
    exact (hreturns _).mp ((h.value v).mp rfl)
  · intro hv
    have hy : y.ending = .returns ⟨.success, v⟩ := (hreturns _).mpr hv
    constructor <;> simp [hy, hcalls, TryCallResult.empty, TryCallResult.signatureMismatch, hx, ha]

omit [DecidableEq τ] in
lemma agree_runs_iff : Agree V E s cat c a (callRun V E C s cat c a) (tryCallRun V E C s cat c a) ↔
    HandsOn V C E s cat c a := by
  have h : Course V E C s cat c a (dispatchRun V E C s cat c a) := course_dispatchRun
  rw [callRun, tryCallRun]
  generalize dispatchRun V E C s cat c a = k at h
  cases h with
  | stopped ha hend =>
    refine iff_of_true ?_ fun _ a' _ _ _ ha' => absurd ha' (ha a')
    rcases hend with rfl | ⟨e, rfl⟩ <;> cases s.isNoexcept <;> constructor <;>
      simp [Run.bind, Run.noexcept]
  | empty hc =>
    subst hc
    refine iff_of_true ?_ (by simp [HandsOn])
    rw [Run.ret_bind, Run.ret_bind]
    cases s.isNoexcept <;> constructor <;> simp [callEnd, tryCallEnd, Run.ret, Run.throw,
      Run.noexcept, TryCallResult.empty, TryCallResult.signatureMismatch]
  | mismatch hc hx =>
    subst hc
    refine iff_of_true ?_ (by rintro o a' r ⟨⟩ hx'; simp [hx] at hx')
    rw [Run.ret_bind, Run.ret_bind]
    cases s.isNoexcept <;> constructor <;> simp [callEnd, tryCallEnd, Run.ret, Run.throw,
      Run.noexcept, TryCallResult.empty, TryCallResult.signatureMismatch, hx]
  | @ran o a' hc hx ha =>
    subst hc
    cases hi : C.invoke o.type cat s o.val a' with
    | error e =>
      refine iff_of_true ?_ (by simp [handsOn_iff hx ha, hi])
      cases hs : s.isNoexcept <;> constructor <;>
        simp [targetEnding, hs, Run.bind, Run.noexcept, hx, ha]
    | ok r =>
      have hon : HandsOn V C E s cat (some o) a ↔
          success V.toMoves s.ret (returned s r) = .ok ⟨.success, returned s r⟩ := by
        simp [handsOn_iff hx ha, hi]
      rw [hon]
      refine agree_returned_iff hx ha ?_ (fun t => ?_) <;>
        cases s.isNoexcept <;> cases hv : success V.toMoves s.ret (returned s r) <;>
        simp [targetEnding, Run.bind, tryCallEnd, Run.lift, Run.noexcept, Ending.ofExcept,
          Except.mapError, hv]

/-- **Throwing and non-throwing dispatch agree, exactly when** `try_call` compiles and hands the
result on. On a storage in order, for either kind of signature, each value category and all
arguments, `call` and `operator()` then return a value, let an exception of the target through, or
throw `bad_call` or `bad_signature_call`, exactly when `try_call` reports that value, lets that
exception through, or reports `Empty` or `SignatureMismatch`. -/
theorem call_tryCall_agree_iff (h : Holds E m p self c) (s : Sig) (cat : Category) (a : Arg) :
    (∃ x y, call V E C m self s cat a = some x ∧ callOperator V E C m self s cat a = some x ∧
      tryCall V E C m self s cat a = some y ∧ Agree V E s cat c a x y) ↔
      V.succeeds s = true ∧ HandsOn V C E s cat c a := by
  cases hs : V.succeeds s with
  | false => simp [tryCall_eq_none hs]
  | true => simp [call_eq h, callOperator_eq h, tryCall_eq h hs, agree_runs_iff]

/-- A `const` call of the small callable that owns something. Values of `int` are moved without
more. -/
theorem call_tryCall_agree_iff_sample :
    (∃ x y,
      call .keeping (sampleEnv .copyable) sampleCalls (sampleWorld 3).mem
        (smallStorage (sampleEnv .copyable) (.of 1) .owner) intToInt .cl 4 = some x ∧
      callOperator .keeping (sampleEnv .copyable) sampleCalls (sampleWorld 3).mem
        (smallStorage (sampleEnv .copyable) (.of 1) .owner) intToInt .cl 4 = some x ∧
      tryCall .keeping (sampleEnv .copyable) sampleCalls (sampleWorld 3).mem
        (smallStorage (sampleEnv .copyable) (.of 1) .owner) intToInt .cl 4 = some y ∧
      Agree .keeping (sampleEnv .copyable) intToInt .cl (some ⟨.owner, 5⟩) 4 x y) ↔
    (Passing.keeping : Passing ℕ ℕ Unit).succeeds intToInt = true ∧
      HandsOn .keeping sampleCalls (sampleEnv .copyable) intToInt .cl (some ⟨.owner, 5⟩) 4 := by
  have hget : (sampleWorld 3).mem.get (.sbo (.of 1)) = some ⟨.owner, 5⟩ := rfl
  have h : Holds (sampleEnv .copyable) (sampleWorld 3).mem (.of 1)
      (smallStorage (sampleEnv .copyable) (.of 1) .owner) (some ⟨.owner, 5⟩) :=
    .small (⟨.owner, 5⟩ : Object Sample ℕ) rfl rfl hget
  exact call_tryCall_agree_iff h intToInt .cl 4

/-- `T(int)`, for a class `T`. -/
def intToClass : Sig := ⟨.val (.cls 0), [.val (.arith .int)], false⟩

/-- Wrappers for `T(int)`. -/
def classEnv : Env Sample ℕ ℕ :=
  { sampleEnv .copyable with
    sigs := [intToClass]
    exactInvocable := fun _ _ s => s = intToClass }

/-- The move of a `T` throws. -/
def throwingClass : Passing ℕ ℕ Unit where
  movable _ := true
  move R r := if R = .val (.cls 0) then .error () else .ok r
  forward _ a := .ok a

/-- `call` returns the `T`, and `try_call` throws what the move of it throws. -/
theorem moved_result_differs :
    ¬ ∀ (V : Passing ℕ ℕ Unit) m self p c s cat a, Holds classEnv m p self c →
      ∃ x y, call V classEnv sampleCalls m self s cat a = some x ∧
        callOperator V classEnv sampleCalls m self s cat a = some x ∧
        tryCall V classEnv sampleCalls m self s cat a = some y ∧
        Agree V classEnv s cat c a x y := by
  intro h
  have hget : (sampleWorld 3).mem.get (.sbo (.of 1)) = some ⟨.owner, 5⟩ := rfl
  obtain ⟨x, y, hx, -, hy, hagree⟩ := h throwingClass (sampleWorld 3).mem
    (smallStorage classEnv (.of 1) .owner) (.of 1) (some ⟨.owner, 5⟩) intToClass .l 4
    (.small (⟨.owner, 5⟩ : Object Sample ℕ) rfl rfl hget)
  obtain rfl : _ = x := Option.some.inj hx
  obtain rfl : _ = y := Option.some.inj hy
  exact absurd ((hagree.value (some 9)).mp rfl) (by decide)

end FunctionWrapper.SignatureInterface
