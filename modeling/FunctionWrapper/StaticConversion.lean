import FunctionWrapper.CallResult
import FunctionWrapper.ConstructionPaths

/-!
`static_function::to_function_wrapper` at run time.

The wrapper stores the `static_function` as it stores any callable, and knows its type only. The
call operator of that type takes the arguments of every declared signature, with a pointer or
without one, and is never `noexcept`; without a pointer it throws.
-/

namespace FunctionWrapper.StaticConversion

open FunctionWrapper.Types FunctionWrapper.Traits FunctionWrapper.Signatures
open FunctionWrapper.Callables FunctionWrapper.Storage FunctionWrapper.Lifecycle
open FunctionWrapper.StorageForms FunctionWrapper.WrapperSpec FunctionWrapper.RunInvariant
open FunctionWrapper.CallAcceptance FunctionWrapper.Dispatch FunctionWrapper.CallResult
open FunctionWrapper.ValueSemantics FunctionWrapper.ConstructionPaths

variable {τ Val Fn Raw Arg Ret Exc : Type}

inductive Seen (Ret Exc : Type)
  | returned (r : Ret)
  | threw (t : Thrown Exc)
  | reported (f : Failure)
  | terminated
  deriving DecidableEq, Repr

/-- How a call ends that does not return. -/
inductive Abrupt (Exc : Type)
  | throws (t : Thrown Exc)
  | terminates
  deriving DecidableEq, Repr

def Abrupt.seen : Abrupt Exc → Seen Ret Exc
  | .throws t => .threw t
  | .terminates => .terminated

/-- `bad_call` and `bad_signature_call`. -/
def thrownBy : Failure → Thrown Exc
  | .empty => .badCall
  | .mismatch => .badSignatureCall

/-- `call` throws where `try_call` reports; exceptions of another origin pass both. -/
def shown {Exc' : Type} (pass : Exc' → Seen Ret Exc) (mode : Mode) : Outcome Ret Exc' → Seen Ret Exc
  | .value r => .returned r
  | .propagated e => pass e
  | .failed f =>
    match mode with
    | .call => .threw (thrownBy f)
    | .tryCall => .reported f
  | .terminated => .terminated

variable (P : Program) (C : Calls τ Val Fn Raw Arg Ret Exc) (E : Env τ Val Fn)

/-- `static_function::call` and `static_function::try_call`, where they compile. -/
def staticCall (v : Val) (mode : Mode) (args : Raw) : Option (Outcome Ret Exc) :=
  (acceptedSignature P .staticFunction mode E.sigs (C.types args)).map fun s =>
    invokeSlot C (E.slotsOf v) s args

/-- The signature that a call with exactly the parameter types of `s` goes to. -/
def innerSignature (s : Sig) : Option Sig :=
  acceptedSignature P .staticFunction .call E.sigs s.exactArgs

/-- `is_exact_invocable_r_v` and `is_exact_nothrow_invocable_r_v` of a `static_function`. -/
def innerInvocable (s : Sig) : Bool :=
  !s.isNoexcept && (innerSignature P E s).any fun t => decide (t.ret.called = s.ret)

/-- `std::forward<Args>(args)...`: the parameters of a signature, handed on as arguments. -/
structure Forwarding where
  forward : Sig → Arg → Raw
  types : ∀ s a, C.types (forward s a) = s.exactArgs

variable (fw : Forwarding C)

/-- `std::invoke` on the stored `static_function`. -/
def innerCall (v : Val) (s : Sig) (a : Arg) : Except (Abrupt Exc) Ret :=
  match staticCall P C E v .call (fw.forward s a) with
  | some (.value r) => .ok r
  | some (.propagated e) => .error (.throws (.target e))
  | some (.failed f) => .error (.throws (thrownBy f))
  | some .terminated => .error .terminates
  | none => .error .terminates -- such a call does not compile

variable [DecidableEq τ]

/-- The class that the `static_function` is converted to. -/
def wrapperClass : Env τ Val Fn :=
  { E with
    kind := .copyable
    layout := { E.layout with
      copyConstructible := fun T => decide (T = E.staticFunction) || E.layout.copyConstructible T }
    exactInvocable := fun T cat s =>
      if T = E.staticFunction then innerInvocable P E s else E.exactInvocable T cat s }

/-- The calls of the wrappers, which let through what a stored `static_function` throws. -/
def withStatic : Calls τ Val Fn Raw Arg Ret (Abrupt Exc) where
  types := C.types
  cast s args := (C.cast s args).mapError fun e => .throws (.target e)
  init s args := (C.init s args).mapError fun e => .throws (.target e)
  invoke T cat s v a :=
    if T = E.staticFunction then innerCall P C E fw v s a
    else (C.invoke T cat s v a).mapError fun e => .throws (.target e)
  apply s pointer a := (C.apply s pointer a).mapError fun e => .throws (.target e)

/-- There is memory; the copy of a `static_function` does not throw. -/
def memoryAt (n : ℕ) : Luck := ⟨false, false, n⟩

/-- `to_function_wrapper` into a wrapper at `w`. -/
def toFunctionWrapper (v : Val) (w n : ℕ) (W : World τ Val Fn) : Option (World τ Val Fn × Bool) :=
  construct (wrapperClass P E) w (.object ⟨E.staticFunction, v⟩) (memoryAt n) W

/-! ### Preservation -/

/-- The conversion compiles: so does the call operator, for each declared signature that the vtable
asks about, and the wrapper finds a signature to serve. -/
structure Accepted : Prop where
  selects : ∀ s ∈ E.sigs, (innerSignature P E s).isSome = true
  accepts : (wrapperClass P E).accepts E.staticFunction = true

/-- The wrapper has a value, binds the signatures and takes the calls as the `static_function`
does. The argument lists are those that the wrapper accepts. -/
structure Preserves (v : Val) (W : World τ Val Fn) (w : ℕ) : Prop where
  hasValue : wrapperHasValue (wrapperClass P E) W w = some (hasValue E (E.slotsOf v))
  bound : boundSignatures (wrapperClass P E) W w =
    some (E.sigs.map fun s => (E.slotsOf v s).isSome)
  calls : ∀ mode cat s args,
    acceptedSignature P .wrapper mode E.sigs (C.types args) = some s →
      (dispatch (withStatic P C E fw) (wrapperClass P E) W w mode cat s args).map
          (shown Abrupt.seen mode) =
        (staticCall P C E v mode args).map (shown (fun e => .threw (.target e)) mode)

/-- The conversion is accepted and returns a wrapper that preserves the `static_function`. -/
def Preserving (v : Val) (w n : ℕ) (W : World τ Val Fn) : Prop :=
  Accepted P E ∧ ∃ W', toFunctionWrapper P E v w n W = some (W', false) ∧
    Preserves P C E fw v W' w

/-- The arguments are converted on the way through the wrapper, and this makes no difference to the
`static_function`. -/
structure Unaffected (v : Val) (mode : Mode) (s : Sig) (args : Raw) : Prop where
  unbound : E.slotsOf v s = none → ¬ Throws C mode s args
  throws : E.slotsOf v s ≠ none → ∀ e, convert C mode s args = .error e →
    invokeSlot C (E.slotsOf v) s args = .propagated e
  runs : E.slotsOf v s ≠ none → ∀ a, convert C mode s args = .ok a →
    staticCall P C E v .call (fw.forward s a) = some (invokeSlot C (E.slotsOf v) s args)

/-- The conversion compiles, some slot is bound, the bound slots are those of the signatures that
the type can be invoked through, and no call notices the conversions of its arguments. -/
structure Faithful (v : Val) : Prop where
  selects : ∀ s ∈ E.sigs, (innerSignature P E s).isSome = true
  live : ∃ s ∈ E.sigs, E.slotsOf v s ≠ none
  bound : ∀ s ∈ E.sigs, (E.slotsOf v s).isSome = innerInvocable P E s
  calls : ∀ mode s args, acceptedSignature P .wrapper mode E.sigs (C.types args) = some s →
    Unaffected P C E fw v mode s args

variable {P C E fw} {v : Val} {mode : Mode} {cat : Category} {s : Sig} {args : Raw}
variable {W W' : World τ Val Fn} {w n : ℕ} {threw : Bool}

omit [DecidableEq τ] in
/-- The `static_function` takes what the wrapper takes, for the same signature. -/
lemma staticCall_of_accepted
    (h : acceptedSignature P .wrapper mode E.sigs (C.types args) = some s) :
    staticCall P C E v mode args = some (invokeSlot C (E.slotsOf v) s args) := by
  obtain ⟨hsel, hc⟩ := accepted_eq_some h
  have hstatic : compiles P .staticFunction mode (C.types args) s = true := by
    simp only [compiles, Bool.and_eq_true] at hc ⊢
    exact ⟨hc.1, trivial⟩
  have hacc : acceptedSignature P .staticFunction mode E.sigs (C.types args) = some s := by
    rw [acceptedSignature, Option.filter_eq_some_iff]
    exact ⟨hsel, hstatic⟩
  rw [staticCall, hacc]
  rfl

omit [DecidableEq τ] in
lemma staticCall_forward {t : Sig} (h : innerSignature P E s = some t) (a : Arg) :
    staticCall P C E v .call (fw.forward s a) =
      some (invokeSlot C (E.slotsOf v) t (fw.forward s a)) := by
  rw [staticCall, fw.types, ← innerSignature, h]
  rfl

omit [DecidableEq τ] in
lemma shown_innerCall (hs : s.isNoexcept = false) {a : Arg} {x : Outcome Ret Exc}
    (hx : staticCall P C E v .call (fw.forward s a) = some x) :
    shown Abrupt.seen mode (outcome s (innerCall P C E fw v s a)) =
      shown (fun e => .threw (.target e)) .call x := by
  rw [innerCall, hx]
  cases x <;> simp [outcome, hs, shown, Abrupt.seen]

/-- Only the failures are seen in one way by callers of `call` and in another by those of
`try_call`. -/
lemma shown_eq_iff (mode : Mode) {x y : Outcome Ret Exc} (hy : ∀ f, y ≠ .failed f) :
    shown (fun e => Seen.threw (.target e)) .call x = shown (fun e => .threw (.target e)) mode y ↔
      x = y := by
  cases y with
  | failed f => exact absurd rfl (hy f)
  | value r => cases x <;> simp [shown]
  | propagated e =>
    cases x with
    | failed f => cases f <;> simp [shown, thrownBy]
    | _ => simp [shown]
  | terminated => cases x <;> simp [shown]

omit [DecidableEq τ] in
lemma invokeSlot_ne_failed {pointer : Fn} (h : E.slotsOf v s = some pointer) (f : Failure) :
    invokeSlot C (E.slotsOf v) s args ≠ .failed f := by
  simp only [invokeSlot, h]
  exact outcome_ne_failed s _ f

omit [DecidableEq τ] in
lemma unaffected_unbound (h : E.slotsOf v s = none) :
    Unaffected P C E fw v mode s args ↔ ¬ Throws C mode s args :=
  ⟨fun hu => hu.unbound h,
    fun ht => ⟨fun _ => ht, fun hne => absurd h hne, fun hne => absurd h hne⟩⟩

omit [DecidableEq τ] in
lemma unaffected_error (h : E.slotsOf v s ≠ none) {e : Exc}
    (he : convert C mode s args = .error e) :
    Unaffected P C E fw v mode s args ↔ invokeSlot C (E.slotsOf v) s args = .propagated e := by
  refine ⟨fun hu => hu.throws h e he, fun hcall => ⟨fun hn => absurd hn h, fun _ e' he' => ?_,
    fun _ a ha => ?_⟩⟩
  · obtain rfl : e = e' := Except.error.inj (he.symm.trans he')
    exact hcall
  · cases he.symm.trans ha

omit [DecidableEq τ] in
lemma unaffected_ok (h : E.slotsOf v s ≠ none) {a : Arg} (ha : convert C mode s args = .ok a) :
    Unaffected P C E fw v mode s args ↔
      staticCall P C E v .call (fw.forward s a) = some (invokeSlot C (E.slotsOf v) s args) := by
  refine ⟨fun hu => hu.runs h a ha, fun hcall => ⟨fun hn => absurd hn h, fun _ e he => ?_,
    fun _ a' ha' => ?_⟩⟩
  · cases ha.symm.trans he
  · obtain rfl : a = a' := Except.ok.inj (ha.symm.trans ha')
    exact hcall

/-- A call of the wrapper is seen as the call of the `static_function`, exactly when that does not
notice the conversions. -/
lemma shown_calls_iff (hsel : (innerSignature P E s).isSome = true)
    (hbound : (E.slotsOf v s).isSome = innerInvocable P E s) :
    shown Abrupt.seen mode (valueOutcome (wrapperClass P E) (withStatic P C E fw)
          (some (.stored ⟨E.staticFunction, v⟩)) mode cat s args) =
        shown (fun e => .threw (.target e)) mode (invokeSlot C (E.slotsOf v) s args) ↔
      Unaffected P C E fw v mode s args := by
  have hconvert : convert (withStatic P C E fw) mode s args =
      (convert C mode s args).mapError fun e => .throws (.target e) := by cases mode <;> rfl
  have hx : (wrapperClass P E).exactInvocable E.staticFunction cat s = innerInvocable P E s :=
    if_pos rfl
  have hinvoke : ∀ a, (withStatic P C E fw).invoke E.staticFunction cat s v a =
      innerCall P C E fw v s a := fun _ => if_pos rfl
  simp only [valueOutcome, hconvert, hx, hinvoke]
  rcases hslot : E.slotsOf v s with _ | pointer
  · have hno : innerInvocable P E s = false := by rw [← hbound, hslot]; rfl
    rw [unaffected_unbound hslot, hno]
    simp only [invokeSlot, hslot]
    cases h : convert C mode s args with
    | error e => cases mode <;> simp [Except.mapError, shown, Abrupt.seen, thrownBy, Throws, h]
    | ok a => simp [Except.mapError, shown, not_throws_of_ok h]
  · have hyes : innerInvocable P E s = true := by rw [← hbound, hslot]; rfl
    have hplain : s.isNoexcept = false := by
      simp only [innerInvocable, Bool.and_eq_true, Bool.not_eq_true'] at hyes
      exact hyes.1
    have hne : E.slotsOf v s ≠ none := by simp [hslot]
    have hfailed : ∀ f, invokeSlot C (E.slotsOf v) s args ≠ .failed f := invokeSlot_ne_failed hslot
    rw [hyes]
    cases h : convert C mode s args with
    | error e =>
      rw [unaffected_error hne h, eq_comm (b := Outcome.propagated e), ← shown_eq_iff mode hfailed]
      rfl
    | ok a =>
      obtain ⟨t, ht⟩ := Option.isSome_iff_exists.mp hsel
      have hcall : staticCall P C E v .call (fw.forward s a) =
          some (invokeSlot C (E.slotsOf v) t (fw.forward s a)) := staticCall_forward ht a
      rw [unaffected_ok hne h, hcall, Option.some.injEq, ← shown_eq_iff mode hfailed,
        ← shown_innerCall hplain hcall]
      rfl

lemma supportsSignature_static :
    (wrapperClass P E).supportsSignature E.staticFunction s = innerInvocable P E s := by
  have hx : ∀ cat, (wrapperClass P E).exactInvocable E.staticFunction cat s =
      innerInvocable P E s := fun _ => if_pos rfl
  simp [Env.supportsSignature, Category.all, hx]

lemma accepts_static :
    (wrapperClass P E).accepts E.staticFunction = true ↔
      ∃ s ∈ E.sigs, innerInvocable P E s = true := by
  have hcopy : (wrapperClass P E).layout.copyConstructible E.staticFunction = true := by
    simp [wrapperClass]
  have haccepts : (wrapperClass P E).accepts E.staticFunction =
      ((wrapperClass P E).layout.copyConstructible E.staticFunction &&
        E.sigs.any ((wrapperClass P E).supportsSignature E.staticFunction)) := rfl
  simp only [haccepts, hcopy, Bool.true_and, List.any_eq_true, supportsSignature_static]

/-- The conversion is not there for `noexcept` signatures alone. -/
theorem not_accepted_of_noexcept (h : ∀ s ∈ E.sigs, s.isNoexcept = true) : ¬ Accepted P E := by
  intro hacc
  obtain ⟨s, hs, hx⟩ := accepts_static.mp hacc.accepts
  simp [innerInvocable, h s hs] at hx

lemma toFunctionWrapper_returns (hrun : W.phase = .run)
    (e : toFunctionWrapper P E v w n W = some (W', threw)) : threw = false := by
  have hphase : ¬ (defaultConstruct w W).phase = .constant := by
    rw [show (defaultConstruct w W).phase = W.phase from rfl, hrun]
    simp
  obtain ⟨⟨W₁, t⟩, h₁, h₂⟩ := Option.map_eq_some_iff.mp e
  simp only [assign, if_neg hphase, assignRuntime, Option.bind_eq_bind,
    Option.bind_eq_some_iff] at h₁
  obtain ⟨o, -, self, -, h₁⟩ := h₁
  have ht : t = false := by
    rw [← (Prod.mk.inj (Option.some.inj h₁)).2]
    split <;> simp [emplaceSmallStorage, emplaceHeapStorage, memoryAt]
  subst ht
  exact (Prod.mk.inj h₂).2.symm

/-- **The wrapper answers as a callable of the type `static_function`.** -/
theorem toFunctionWrapper_answers (h : Runs.Reachable (system (wrapperClass P E)) W)
    (hrun : W.phase = .run) (hw : ¬ Live W w) (hfree : W.mem.get (.block n) = none)
    (hacc : (wrapperClass P E).accepts E.staticFunction = true) :
    ∃ W', toFunctionWrapper P E v w n W = some (W', false) ∧
      Answers (wrapperClass P E) W' w (some (.stored ⟨E.staticFunction, v⟩))
        (withStatic P C E fw) := by
  have hsrc : SourceOk (wrapperClass P E) W (.object ⟨E.staticFunction, v⟩) :=
    ⟨hacc, fun hp => by rw [hrun] at hp; cases hp⟩
  have hblock : W.mem.get (.block (memoryAt n).block) = none := hfree
  obtain ⟨W', threw, o, e, -, hphase, ho, hview⟩ :=
    construct_spec (inv_reachable h).toWhole hw hsrc hblock
  obtain rfl := toFunctionWrapper_returns hrun e
  obtain rfl : (⟨E.staticFunction, v⟩ : Object τ Val) = o := Option.some.inj ho
  have hinv : Inv (wrapperClass P E) W' := inv_reachable
    (h.step (a := ⟨.construct w (.object ⟨E.staticFunction, v⟩), memoryAt n, false⟩)
      ⟨⟨hw, hsrc⟩, hblock, e⟩)
  have hstored : view W' w = some (.inactive, some ⟨E.staticFunction, v⟩) := by
    rw [hview, hrun]
    simp [assignView, leaveView]
  exact ⟨W', e, answers_of_represents _ hinv (hphase.trans hrun) hstored (.stored _ rfl _)⟩

lemma preserves_iff (hsel : ∀ s ∈ E.sigs, (innerSignature P E s).isSome = true)
    (hacc : ∃ s ∈ E.sigs, innerInvocable P E s = true)
    (ha : Answers (wrapperClass P E) W w (some (.stored ⟨E.staticFunction, v⟩))
      (withStatic P C E fw)) : Preserves P C E fw v W w ↔ Faithful P C E fw v := by
  have hvalueBound : valueBound (wrapperClass P E) (some (.stored ⟨E.staticFunction, v⟩)) =
      E.sigs.map (innerInvocable P E) := List.map_congr_left fun s _ => supportsSignature_static
  have hdispatch : ∀ mode cat s args,
      acceptedSignature P .wrapper mode E.sigs (C.types args) = some s →
        dispatch (withStatic P C E fw) (wrapperClass P E) W w mode cat s args =
          some (valueOutcome (wrapperClass P E) (withStatic P C E fw)
            (some (.stored ⟨E.staticFunction, v⟩)) mode cat s args) :=
    fun mode cat s args hs => ha.calls mode cat s args (accepted_mem hs)
  constructor
  · intro h
    have hbound : ∀ s ∈ E.sigs, (E.slotsOf v s).isSome = innerInvocable P E s := by
      have hlists := h.bound
      rw [ha.bound, hvalueBound, Option.some.injEq, List.map_inj_left] at hlists
      exact fun s hs => (hlists s hs).symm
    obtain ⟨s₀, hs₀, hx₀⟩ := hacc
    refine ⟨hsel, ⟨s₀, hs₀, ?_⟩, hbound, fun mode s args hs => ?_⟩
    · rw [← Option.isSome_iff_ne_none, hbound s₀ hs₀, hx₀]
    · have hcall := h.calls mode .l s args hs
      rw [hdispatch mode .l s args hs, staticCall_of_accepted hs] at hcall
      have hmem := accepted_mem hs
      exact (shown_calls_iff (hsel s hmem) (hbound s hmem)).mp (Option.some.inj hcall)
  · intro h
    have hlive : hasValue E (E.slotsOf v) = true := by
      obtain ⟨s, hs, hne⟩ := h.live
      exact List.any_eq_true.mpr ⟨s, hs, Option.isSome_iff_ne_none.mpr hne⟩
    refine ⟨by rw [ha.hasValue, hlive]; rfl, ?_, fun mode cat s args hs => ?_⟩
    · rw [ha.bound, hvalueBound, Option.some.injEq, List.map_inj_left]
      exact fun s hs => (h.bound s hs).symm
    · have hmem := accepted_mem hs
      rw [hdispatch mode cat s args hs, staticCall_of_accepted hs, Option.map_some, Option.map_some,
        Option.some.injEq]
      exact (shown_calls_iff (hsel s hmem) (h.bound s hmem)).mpr (h.calls mode s args hs)

/-- **The conversion preserves a `static_function` exactly when** each declared signature is
selected for its own arguments, the slots that are bound are those of the plain signatures that are
selected with their own result, there is one, and the conversions of arguments go unnoticed. -/
theorem preserving_iff (h : Runs.Reachable (system (wrapperClass P E)) W) (hrun : W.phase = .run)
    (hw : ¬ Live W w) (hfree : W.mem.get (.block n) = none) :
    Preserving P C E fw v w n W ↔ Faithful P C E fw v := by
  constructor
  · rintro ⟨hacc, W', e, hpreserves⟩
    obtain ⟨W₁, e₁, ha⟩ := toFunctionWrapper_answers (C := C) (v := v) h hrun hw hfree hacc.accepts
    obtain ⟨rfl, -⟩ := Prod.mk.inj (Option.some.inj (e.symm.trans e₁))
    exact (preserves_iff hacc.selects (accepts_static.mp hacc.accepts) ha).mp hpreserves
  · intro hf
    obtain ⟨s, hs, hne⟩ := hf.live
    have hx : innerInvocable P E s = true := by
      rw [← hf.bound s hs, Option.isSome_iff_ne_none]
      exact hne
    have haccepts := accepts_static.mpr ⟨s, hs, hx⟩
    obtain ⟨W', e, ha⟩ := toFunctionWrapper_answers h hrun hw hfree haccepts
    exact ⟨⟨hf.selects, haccepts⟩, W', e, (preserves_iff hf.selects ⟨s, hs, hx⟩ ha).mpr hf⟩

omit [DecidableEq τ] in
/-- A `static_function` of plain signatures, each selected for its own arguments and bound, is
converted faithfully, where initializing a parameter is casting to it and handing a parameter on
keeps its value. -/
theorem faithful_of_full (hsigs : E.sigs ≠ []) (hinit : ∀ s args, C.init s args = C.cast s args)
    (hown : ∀ s a, C.cast s (fw.forward s a) = .ok a)
    (hfull : ∀ s ∈ E.sigs, s.isNoexcept = false ∧ innerSignature P E s = some s ∧
      s.ret.called = s.ret ∧ E.slotsOf v s ≠ none) : Faithful P C E fw v := by
  obtain ⟨s₀, hs₀⟩ := List.exists_mem_of_ne_nil _ hsigs
  refine ⟨fun s hs => by simp [(hfull s hs).2.1], ⟨s₀, hs₀, (hfull s₀ hs₀).2.2.2⟩, fun s hs => ?_,
    fun mode s args hacc => ?_⟩
  · obtain ⟨hplain, hself, hret, hne⟩ := hfull s hs
    rw [Option.isSome_iff_ne_none.mpr hne]
    simp [innerInvocable, hplain, hself, hret]
  · obtain ⟨hplain, hself, -, hne⟩ := hfull s (accepted_mem hacc)
    obtain ⟨pointer, hslot⟩ := Option.ne_none_iff_exists'.mp hne
    have hconvert : convert C mode s args = C.cast s args := by
      cases mode with
      | call => rfl
      | tryCall => exact hinit s args
    cases hc : C.cast s args with
    | error e =>
      rw [unaffected_error hne (hconvert.trans hc), invokeSlot, hslot, hc]
      simp [Except.bind, outcome, hplain]
    | ok a =>
      rw [unaffected_ok hne (hconvert.trans hc), staticCall_forward hself, invokeSlot, invokeSlot,
        hslot, hc, hown]

/-- Calls with one argument of some type: a target adds its value to it. -/
def typedCalls : Calls Sample ℕ ℕ (List QType × ℕ) ℕ ℕ Unit where
  types := Prod.fst
  cast _ args := .ok args.2
  init _ args := .ok args.2
  invoke _ _ _ v a := .ok (v + a)
  apply _ pointer a := .ok (pointer + a)

def typedForwarding : Forwarding typedCalls := ⟨fun s a => (s.exactArgs, a), fun _ _ => rfl⟩

def startedWorld : World Sample ℕ ℕ :=
  play (wrapperClass arithmeticOnly (sampleEnv .copyable)) [.start]

/-- A `static_function<int(int)>` that adds 3 is preserved. -/
theorem preserving_bound : Preserving arithmeticOnly typedCalls (sampleEnv .copyable)
    typedForwarding 3 0 1 startedWorld := by
  refine (preserving_iff (started_reachable _) rfl (not_not_intro rfl) rfl).mpr
    (faithful_of_full (by decide) (fun _ _ => rfl) (fun _ _ => rfl) fun s hs => ?_)
  obtain rfl := List.mem_singleton.mp hs
  decide

/-- Without a function `try_call` reports a mismatch, and throws through the wrapper. -/
theorem unbound_disturbed :
    ¬ ∀ v W w n, Runs.Reachable (system (wrapperClass arithmeticOnly (sampleEnv .copyable))) W →
      W.phase = .run → ¬ Live W w → W.mem.get (.block n) = none →
      Preserving arithmeticOnly typedCalls (sampleEnv .copyable) typedForwarding v w n W := by
  intro h
  obtain ⟨-, W', e, hpreserves⟩ := h 0 startedWorld 0 1 (started_reachable _) rfl
    (not_not_intro rfl) rfl
  obtain rfl := (Prod.mk.inj (Option.some.inj e)).1
  have hcall := hpreserves.calls .tryCall .l intToInt ([.val (.arith .int)], 4) (by decide)
  exact absurd hcall (by decide)

end FunctionWrapper.StaticConversion
