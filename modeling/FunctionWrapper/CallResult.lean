import FunctionWrapper.Signatures

/-!
What comes out of a call: exceptions, and the results of `try_call`.

A function hands the result of its target on without a move. `try_call` moves a value twice before it
is in the `try_call_result`.
-/

namespace FunctionWrapper.CallResult

open FunctionWrapper.Types FunctionWrapper.Signatures

/-- What can leave a call: an exception of the target or of a conversion, one of a move that passes
an argument or the result on, or one of the library. -/
inductive Thrown (Exc : Type)
  | target (e : Exc)
  | passing (e : Exc)
  | badCall
  | badSignatureCall
  deriving DecidableEq, Repr

inductive TryCallStatus | success | empty | signatureMismatch
  deriving DecidableEq, Repr

/-- `try_call_result<R>`; there is no value for `void`. -/
structure TryCallResult (Ret : Type) where
  status : TryCallStatus
  value : Option Ret
  deriving DecidableEq, Repr

/-- The move constructors of the result types. -/
structure Moves (Ret Exc : Type) where
  /-- `std::is_move_constructible_v`. -/
  movable : QType → Bool
  move : QType → Ret → Except Exc Ret

/-- `std::is_void_v<R>`. -/
def isVoid (s : Sig) : Bool := !s.ret.isReference && decide (s.ret.ty = .void)

def returned {Ret : Type} (s : Sig) (r : Ret) : Option Ret := if isVoid s then none else some r

variable {Ret Exc Exc' : Type}

namespace TryCallResult

def empty : TryCallResult Ret := ⟨.empty, none⟩
def signatureMismatch : TryCallResult Ret := ⟨.signatureMismatch, none⟩

variable (V : Moves Ret Exc) (R : QType)

/-- `success`: a value is moved to the constructor, and from there into the result. -/
def success : Option Ret → Except Exc (TryCallResult Ret)
  | none => .ok ⟨.success, none⟩
  | some r =>
    if R.isReference then .ok ⟨.success, some r⟩
    else ((V.move R r).bind (V.move R)).map fun r => ⟨.success, some r⟩

variable {V R}

lemma status_of_success {v : Option Ret} {r : TryCallResult Ret} (h : success V R v = .ok r) :
    r.status = .success := by
  rcases v with _ | v
  · exact Except.ok.inj h ▸ rfl
  · rw [success] at h
    split at h
    · exact Except.ok.inj h ▸ rfl
    · cases hm : (V.move R v).bind (V.move R) <;> simp [hm, Except.map] at h
      exact h ▸ rfl

end TryCallResult

namespace Moves

variable (V : Moves Ret Exc)

/-- `try_call_result<R>::success` compiles. -/
def succeeds (s : Sig) : Bool := isVoid s || s.ret.isReference || V.movable s.ret

def Keeps (s : Sig) : Prop :=
  isVoid s = false → s.ret.isReference = false → ∀ r, V.move s.ret r = .ok r

/-- The same moves, whose exceptions are seen as others. -/
def mapError (f : Exc → Exc') : Moves Ret Exc' where
  movable := V.movable
  move R r := (V.move R r).mapError f

/-- Moves that leave all values as they are. -/
def keeping : Moves Ret Exc := ⟨fun _ => true, fun _ r => .ok r⟩

variable {V} {s : Sig}

lemma Keeps.success_eq (h : V.Keeps s) (r : Ret) :
    TryCallResult.success V s.ret (returned s r) = .ok ⟨.success, returned s r⟩ := by
  cases hv : isVoid s with
  | true => simp [returned, hv, TryCallResult.success]
  | false =>
    cases hr : s.ret.isReference with
    | true => simp [returned, hv, TryCallResult.success, hr]
    | false => simp [returned, hv, TryCallResult.success, hr, h hv hr, Except.bind, Except.map]

lemma keeping_keeps : (keeping : Moves Ret Exc).Keeps s := fun _ _ _ => rfl

lemma Keeps.mapError (h : V.Keeps s) (f : Exc → Exc') : (V.mapError f).Keeps s := fun hv hr r => by
  simp [Moves.mapError, h hv hr, Except.mapError]

end Moves

end FunctionWrapper.CallResult
