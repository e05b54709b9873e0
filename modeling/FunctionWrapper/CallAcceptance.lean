import FunctionWrapper.Selector

/-!
Which calls compile, and the declared signature each of them goes to.

Where several signatures are declared, the selector chooses among the viable candidates. A class
that declares one signature skips the selector, and the conversion of the arguments decides alone:
by `static_cast`, which also applies explicit conversions.
-/

namespace FunctionWrapper.CallAcceptance

open FunctionWrapper.Types FunctionWrapper.Traits FunctionWrapper.Rank FunctionWrapper.Signatures
open FunctionWrapper.Selector
open OnePass

/-- `call`, which throws on failure, and `try_call`, which reports a status. -/
inductive Mode | call | tryCall
  deriving DecidableEq, Repr

/-- The classes that dispatch over a declared list: the two owning wrappers, which do it alike, and
`static_function`. -/
inductive Dispatcher | wrapper | staticFunction
  deriving DecidableEq, Repr

variable (P : Program)

/-- `static_cast<Args>(std::forward<CallArgs>(args))...`. -/
def castable (s : Sig) (CallArgs : List QType) : Bool :=
  decide (s.arity = CallArgs.length) &&
    (CallArgs.zip s.args).all fun (c, a) => isStaticCastable P c.addRvalueRef a

/-- `invoke_signature_call` and `invoke_signature_try_call`: the first casts the arguments before
it enters the interface, the second lets the parameters of the interface convert them. -/
def interfaceInvokes (mode : Mode) (s : Sig) (CallArgs : List QType) : Bool :=
  (match mode with
    | .call => castable P s CallArgs
    | .tryCall => viable P s CallArgs) && forwardable P s

/-- `try_call_result<R>::success` moves the value into the result. -/
def returnable (s : Sig) : Bool :=
  s.ret.isReference || decide (s.ret.ty = .void) || isConvertible P s.ret.addRvalueRef s.ret

/-- A wrapper compiles the call of its `static_function` beside its own, and one of the two runs. -/
def compiles (d : Dispatcher) (mode : Mode) (CallArgs : List QType) (s : Sig) : Bool :=
  castable P s CallArgs &&
    (match mode with
      | .call => true
      | .tryCall => returnable P s) &&
    match d with
    | .wrapper => interfaceInvokes P mode s CallArgs
    | .staticFunction => true

/-- The signature a call is dispatched to: the only one declared, or the unambiguous choice of the
selector. -/
def selectSignature (sigs : List Sig) (CallArgs : List QType) : Option Sig :=
  match sigs with
  | [s] => some s
  | _ => (bestSignatureSelector P CallArgs sigs).bind fun r =>
      if r.found && !r.ambiguous then r.type else none

/-- `dispatch_call_` and `dispatch_try_call_`: the signature that a call which is accepted
invokes. -/
def acceptedSignature (d : Dispatcher) (mode : Mode) (sigs : List Sig) (CallArgs : List QType) :
    Option Sig :=
  (selectSignature P sigs CallArgs).filter (compiles P d mode CallArgs)

/-- A call goes to a viable candidate, and the path for one signature accepts what the selector
finds on the list of that signature. What is accepted is converted by `static_cast` all the same. -/
structure NeverExplicit (d : Dispatcher) (sigs : List Sig) (CallArgs : List QType) : Prop where
  viable : ∀ s, acceptedSignature P d .call sigs CallArgs = some s → viable P s CallArgs = true
  single : ∀ s, sigs = [s] → ((acceptedSignature P d .call sigs CallArgs).isSome = true ↔
    ∃ r, bestSignatureSelector P CallArgs sigs = some r ∧ r.found = true)

variable {P} {CallArgs : List QType} {d : Dispatcher} {mode : Mode}

lemma selected_mem {sigs : List Sig} {r : Selection} {s : Sig}
    (h : bestSignatureSelector P CallArgs sigs = some r) (hs : r.type = some s) :
    s ∈ viableMembers P CallArgs sigs := by
  by_cases hi : Instantiates P CallArgs sigs
  · rw [selector_eq_scan hi] at h
    obtain rfl := Option.some.inj h
    rcases hk : scan (Beats P CallArgs) (viableMembers P CallArgs sigs) with _ | k
    · rw [hk] at hs
      cases hs
    · rw [hk] at hs
      obtain rfl : k.holder = s := Option.some.inj hs
      exact holder_mem hk
  · rw [selector_eq_none hi] at h
    cases h

lemma selector_single (s : Sig) :
    (∃ r, bestSignatureSelector P CallArgs [s] = some r ∧ r.found = true) ↔
      viable P s CallArgs = true ∧ Instantiates P CallArgs [s] := by
  by_cases hi : Instantiates P CallArgs [s]
  · rw [selector_eq_scan hi]
    by_cases hv : viable P s CallArgs = true
    · have e : viableMembers P CallArgs [s] = [s] := by simp [viableMembers, hv]
      simp [e, scan_cons, meet, ofHeld, hi, hv]
    · have e : viableMembers P CallArgs [s] = [] := by simp [viableMembers, hv]
      simp [e, ofHeld, hv]
  · simp [selector_eq_none hi, hi]

lemma accepted_single (s : Sig) : (acceptedSignature P d mode [s] CallArgs).isSome = true ↔
    compiles P d mode CallArgs s = true := by
  simp [acceptedSignature, selectSignature, Option.filter, Option.isSome_iff_exists]

lemma accepted_eq_some {sigs : List Sig} {s : Sig}
    (h : acceptedSignature P d mode sigs CallArgs = some s) :
    selectSignature P sigs CallArgs = some s ∧ compiles P d mode CallArgs s = true := by
  rw [acceptedSignature, Option.filter_eq_some_iff] at h
  exact h

lemma select_eq_some_iff {sigs : List Sig} (hsigs : ∀ s, sigs ≠ [s]) {s : Sig} :
    selectSignature P sigs CallArgs = some s ↔
      bestSignatureSelector P CallArgs sigs = some ⟨some s, true, false⟩ := by
  rw [selectSignature.eq_2 P sigs CallArgs hsigs, Option.bind_eq_some_iff]
  constructor
  · rintro ⟨⟨type, found, ambiguous⟩, hr, hs⟩
    cases found <;> cases ambiguous <;> simp_all
  · exact fun hr => ⟨_, hr, rfl⟩

lemma select_mem_viable {sigs : List Sig} (hsigs : ∀ s, sigs ≠ [s]) {s : Sig}
    (h : selectSignature P sigs CallArgs = some s) : s ∈ viableMembers P CallArgs sigs :=
  selected_mem ((select_eq_some_iff hsigs).mp h) rfl

lemma accepted_mem {sigs : List Sig} {s : Sig}
    (h : acceptedSignature P d mode sigs CallArgs = some s) : s ∈ sigs := by
  have hsel := (accepted_eq_some h).1
  by_cases hone : ∃ t, sigs = [t]
  · obtain ⟨t, rfl⟩ := hone
    obtain rfl : t = s := Option.some.inj hsel
    exact List.mem_singleton_self t
  · exact (List.mem_filter.mp (select_mem_viable (fun t e => hone ⟨t, e⟩) hsel)).1

lemma castable_iff {s : Sig} (h : s.arity = CallArgs.length) : castable P s CallArgs = true ↔
    ∀ p ∈ CallArgs.zip s.args, isStaticCastable P p.1.addRvalueRef p.2 = true := by
  simp [castable, h]

lemma compiles_call_iff (s : Sig) : compiles P d .call CallArgs s = true ↔
    castable P s CallArgs = true ∧ (d = .wrapper → forwardable P s = true) := by
  cases d <;> simp +contextual [compiles, interfaceInvokes]

lemma instantiates_single {s : Sig} (h : s.arity = CallArgs.length) :
    Instantiates P CallArgs [s] ↔
      CallArgs = [] ∨ (commonType P (CallArgs.map QType.removeCvref)).isSome = true :=
  instantiates_iff (List.mem_singleton_self s) h

lemma neverExplicit_single {sigs : List Sig} : NeverExplicit P d sigs CallArgs ↔
    ∀ s, sigs = [s] → (compiles P d .call CallArgs s = true ↔
      viable P s CallArgs = true ∧ Instantiates P CallArgs [s]) := by
  constructor
  · rintro h s rfl
    rw [← accepted_single, ← selector_single]
    exact h.single s rfl
  · intro h
    refine ⟨fun s hs => ?_, ?_⟩
    · by_cases hone : ∃ t, sigs = [t]
      · obtain ⟨t, rfl⟩ := hone
        obtain ⟨hsel, hc⟩ := accepted_eq_some hs
        obtain rfl : t = s := Option.some.inj hsel
        exact ((h t rfl).mp hc).1
      · exact viable_of_mem (select_mem_viable (fun t e => hone ⟨t, e⟩) (accepted_eq_some hs).1)
    · rintro s rfl
      rw [accepted_single, selector_single]
      exact h s rfl

/-- **No call is accepted by explicit conversions only, exactly when** several signatures are
declared, or the only one takes another number of arguments, or on it the casts accept what implicit
conversions do and the other demands of the two paths agree. -/
theorem neverExplicit_iff {sigs : List Sig} : NeverExplicit P d sigs CallArgs ↔
    ∀ s, sigs = [s] → s.arity = CallArgs.length →
      ((∀ p ∈ CallArgs.zip s.args, isStaticCastable P p.1.addRvalueRef p.2 = true) ∧
          (d = .wrapper → forwardable P s = true) ↔
        (∀ p ∈ CallArgs.zip s.args, isConvertible P p.1.addRvalueRef p.2 = true) ∧
          (CallArgs = [] ∨ (commonType P (CallArgs.map QType.removeCvref)).isSome = true)) := by
  rw [neverExplicit_single]
  refine forall_congr' fun s => forall_congr' fun _ => ?_
  rw [compiles_call_iff]
  by_cases harity : s.arity = CallArgs.length
  · rw [castable_iff harity, viable_iff harity, instantiates_single harity]
    simp only [harity, forall_const]
  · have hcast : castable P s CallArgs = false := by simp [castable, harity]
    have hviable : viable P s CallArgs = false := by simp [viable, harity]
    simp [harity, hcast, hviable]

/-- `void(int&&)` takes an `int` variable, which no implicit conversion gives it. -/
theorem lvalue_taken :
    ¬ ∀ d sigs CallArgs, sigs ≠ [] → NeverExplicit arithmeticOnly d sigs CallArgs := by
  intro h
  have hviable := (h .wrapper [⟨.val .void, [.rref (.arith .int)], false⟩]
    [.lref (.arith .int)] (by decide)).viable _ rfl
  exact absurd hviable (by decide)

end FunctionWrapper.CallAcceptance
