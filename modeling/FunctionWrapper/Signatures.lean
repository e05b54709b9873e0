import FunctionWrapper.Rank

/-!
Declared signatures and the compile-time selection of the best one for a call.

The selector recurses over the declared list and keeps one signature of the tail and one
ambiguity bit. Its numeric tie-break names `std::common_type_t` of the call arguments, which is
ill-formed for arguments without a common type; the selector then does not compile, which the
model writes as `none`.
-/

namespace FunctionWrapper.Signatures

open FunctionWrapper.Types FunctionWrapper.Traits FunctionWrapper.Rank

/-- A declared signature, `R(Args...)` or `R(Args...) noexcept`. -/
structure Sig where
  ret : QType
  args : List QType
  isNoexcept : Bool
  deriving DecidableEq, Repr

/-- The return and parameter types, without `noexcept`. -/
def Sig.base (s : Sig) : QType × List QType := (s.ret, s.args)

def Sig.arity (s : Sig) : ℕ := s.args.length

/-- The argument list of a call with exactly the parameter types. -/
def Sig.exactArgs (s : Sig) : List QType := s.args.map QType.asArgument

def conflictingSignaturePair (s t : Sig) : Bool := s.base = t.base && s.isNoexcept != t.isNoexcept

/-- The wrappers reject a list with both `R(Args...)` and `R(Args...) noexcept`. -/
def hasConflictingSignatures : List Sig → Bool
  | [] => false
  | s :: rest => rest.any (conflictingSignaturePair s) || hasConflictingSignatures rest

variable (P : Program)

/-- `signature_candidate<Sig, CallArgs...>::viable`. -/
def viable (s : Sig) (CallArgs : List QType) : Bool :=
  decide (s.arity = CallArgs.length) &&
    (CallArgs.zip s.args).all fun (c, a) => isConvertible P c.addRvalueRef a

/-- `std::forward<Args>(args)...` initializes the parameters of a function of the signature. -/
def forwardable (s : Sig) : Bool := s.args.all fun a => isConvertible P a.addRvalueRef a

def ranks (s : Sig) (CallArgs : List QType) : List ℕ :=
  List.zipWith (fun c a => implicitConversionRank P c.addRvalueRef a) CallArgs s.args

/-- `signature_is_better_than` of two declared signatures. -/
def betterThan (s t : Sig) (CallArgs : List QType) : Bool :=
  decide (s.arity = t.arity) && decide (s.arity = CallArgs.length) &&
    viable P s CallArgs && viable P t CallArgs &&
    ((ranks P s CallArgs).zip (ranks P t CallArgs)).all (fun (i, j) => decide (i ≤ j)) &&
    ((ranks P s CallArgs).zip (ranks P t CallArgs)).any fun (i, j) => decide (i < j)

/-- `signature_is_better_than`, with `none` for `no_matching_signature`. -/
def signatureIsBetterThan (s t : Option Sig) (CallArgs : List QType) : Bool :=
  match s, t with
  | some s, none => viable P s CallArgs
  | none, _ => false
  | some s, some t => betterThan P s t CallArgs

/-- All parameters are one arithmetic type, which is `C` up to reference and qualifiers. -/
def numericTarget (C : Ty) (s : Sig) : Bool :=
  match s.args with
  | [] => false
  | Target :: Rest =>
    Rest.all (fun a => decide (a = Target)) && Target.removeCvref.isArithmetic &&
      decide (Target.removeCvref = C)

/-- `signature_matches_common_numeric_target`; `none` where the test itself is ill-formed. -/
def signatureMatchesCommonNumericTarget (s : Option Sig) (CallArgs : List QType) : Option Bool :=
  match s with
  | none => some false
  | some s =>
    if CallArgs = [] ∨ s.args = [] then some false
    else (commonType P (CallArgs.map QType.removeCvref)).map fun C =>
      numericTarget C s && CallArgs.all fun c => c.removeCvref.isArithmetic

/-! ### The selector -/

/-- What `best_signature_selector` reports; no type stands for `no_matching_signature`. -/
structure Selection where
  type : Option Sig
  found : Bool
  ambiguous : Bool
  deriving DecidableEq, Repr

/-- `best_signature_selector<typelist<Sigs...>, CallArgs...>`. -/
def bestSignatureSelector (CallArgs : List QType) : List Sig → Option Selection
  | [] => some ⟨none, false, false⟩
  | s :: rest => do
    let remaining ← bestSignatureSelector CallArgs rest
    let currentMatches ← signatureMatchesCommonNumericTarget P (some s) CallArgs
    let remainingMatches ← signatureMatchesCommonNumericTarget P remaining.type CallArgs
    let current := viable P s CallArgs
    let currentIsBetter := current &&
      (!remaining.found || signatureIsBetterThan P (some s) remaining.type CallArgs)
    let remainingIsBetter := current && remaining.found &&
      signatureIsBetterThan P remaining.type (some s) CallArgs
    let currentWinsNumericTie := current && remaining.found && !currentIsBetter &&
      !remainingIsBetter && currentMatches && !remainingMatches
    let remainingWinsNumericTie := current && remaining.found && !currentIsBetter &&
      !remainingIsBetter && remainingMatches && !currentMatches
    return {
      type := if currentIsBetter || currentWinsNumericTie then some s else remaining.type
      found := current || remaining.found
      ambiguous := (current && remaining.found && !currentIsBetter && !remainingIsBetter &&
          !currentWinsNumericTie && !remainingWinsNumericTie) ||
        (!(currentIsBetter || currentWinsNumericTie) && remaining.ambiguous) }

end FunctionWrapper.Signatures
