import FunctionWrapper.DeducedSignatures
import FunctionWrapper.InvokedTargets

/-!
`make_function_array` and `make_move_only_function_array`.

The elements are wrappers of one class, which declares the deduced signatures of all the callables.
Whether an element can be called as its own callable therefore depends on the others: two deduced
signatures may be in conflict, and a call may go to another signature than the deduced one, or to
none.
-/

namespace FunctionWrapper.FunctionArrays

open FunctionWrapper.Types FunctionWrapper.Traits FunctionWrapper.Signatures
open FunctionWrapper.Callables FunctionWrapper.Storage FunctionWrapper.Lifecycle
open FunctionWrapper.Selector FunctionWrapper.CallAcceptance FunctionWrapper.StorageForms
open FunctionWrapper.WrapperSpec FunctionWrapper.RunInvariant FunctionWrapper.Dispatch
open FunctionWrapper.InterfaceBase FunctionWrapper.InvokedTargets FunctionWrapper.ExactMatch
open FunctionWrapper.DeducedSignatures FunctionWrapper.DispatchSpec
open OwnedCells

variable {τ Val Fn Raw Arg Ret Exc : Type}

/-- The stored types, as `fn_sig` sees them. -/
structure Deduction (E : Env τ Val Fn) where
  callableType : τ → CallableType
  /-- The call operator of `static_function` is a template. -/
  staticFunction : callableType E.staticFunction = .other

section Factory

variable {E : Env τ Val Fn} (D : Deduction E)

/-- `fn_sig_t`. -/
def Deduction.fnSigT (F : τ) : Option Sig := fnSig (D.callableType F)

variable (E) in
/-- The class of the elements: `function_wrapper` or `move_only_function_wrapper` of the policy and
the declared list. -/
def arrayClass (sigs : List Sig) : Env τ Val Fn := { E with sigs := sigs }

variable (E) in
/-- What the wrappers of the kind demand of a callable to store it. -/
def storable (T : τ) : Bool :=
  match E.kind with
  | .copyable => E.layout.copyConstructible T
  | .moveOnly => E.layout.moveConstructible T

/-- Whether `make_function_array` compiles for callables of the types. -/
def makeFunctionArrayCompiles (Fs : List τ) : Bool :=
  !Fs.isEmpty &&
    match Fs.mapM D.fnSigT with
    | none => false
    | some deduced => !hasConflictingSignatures (uniqueTl deduced) &&
        Fs.all (arrayClass E (uniqueTl deduced)).accepts

/-- The constructions of the elements from `w` on, in order. -/
def elementOps : ℕ → List (Object τ Val) → List (Op τ Val)
  | _, [] => []
  | w, o :: rest => .construct w (.object o) :: elementOps (w + 1) rest

variable [DecidableEq τ]

variable (E) in
/-- `make_function_array` returns: the elements are constructed, and no construction throws. -/
def MakesArray (sigs : List Sig) (w : ℕ) (callables : List (Object τ Val))
    (W W' : World τ Val Fn) : Prop :=
  ∃ run : List (Label τ Val), run.map Label.op = elementOps w callables ∧
    (∀ a ∈ run, a.threw = false) ∧ Runs.Path (system (arrayClass E sigs)) run W W'

/-- What becomes of callables with the deduced signatures. -/
structure ArrayOf (P : Program) (C : Calls τ Val Fn Raw Arg Ret Exc)
    (callables : List (Object τ Val)) (deduced : List Sig) : Prop where
  /-- The declared list is the deduced one without repetitions. -/
  declared : uniqueTl deduced = deduced.eraseDups ∧ (uniqueTl deduced).Nodup
  compiles : makeFunctionArrayCompiles D (callables.map Object.type) = true ↔
    (∀ s ∈ deduced, ∀ t ∈ deduced, s.base = t.base → s = t) ∧
      ∀ o ∈ callables, ∃ s ∈ deduced, E.supportsSignature o.type s = true
  /-- A call with exactly the parameter types of a callable that compiles for its signature. -/
  selects : ∀ s ∈ deduced, ∀ mode, CallAcceptance.compiles P .wrapper mode s.exactArgs s = true →
    (uniqueTl deduced = [s] ∨ Instantiates P s.exactArgs (uniqueTl deduced)) →
      (acceptedSignature P .wrapper mode (uniqueTl deduced) s.exactArgs = some s ↔
        ∀ t ∈ deduced, viable P t s.exactArgs = true → t ≠ s → Beats P s.exactArgs s t)
  /-- What the call does at run time. -/
  calls : ∀ w W W', Runs.Reachable (system (arrayClass E (uniqueTl deduced))) W →
    W.phase = .run → MakesArray E (uniqueTl deduced) w callables W W' →
    ∀ i o s mode cat args a, callables[i]? = some o → deduced[i]? = some s →
      ExactArgs C s args a → E.exactInvocable o.type cat s = true →
      dispatch C (arrayClass E (uniqueTl deduced)) W' (w + i) mode cat s args =
        some (outcome s (C.invoke o.type cat s o.val a))
  /-- What the call does in constant evaluation, where the callable is bound as the function pointer
  it converts to. -/
  constantCalls : ∀ w W W', Runs.Reachable (system (arrayClass E (uniqueTl deduced))) W →
    W.phase = .constant → MakesArray E (uniqueTl deduced) w callables W W' →
    ∀ i o s mode cat args a f pointer, callables[i]? = some o → deduced[i]? = some s →
      ExactArgs C s args a → E.toPointer o.type s = some f → f o.val = some pointer →
      dispatch C (arrayClass E (uniqueTl deduced)) W' (w + i) mode cat s args =
        some (outcome s (C.apply s pointer a))

end Factory

section Acceptance

variable {E : Env τ Val Fn} {D : Deduction E}

lemma mapM_eq_some_iff {α β : Type} {f : α → Option β} {l : List α} {m : List β} :
    l.mapM f = some m ↔ l.map f = m.map some := by
  induction l generalizing m with
  | nil => cases m <;> simp
  | cons a l ih =>
    cases m with
    | nil => simp [List.mapM_cons, Option.bind_eq_some_iff]
    | cons b m =>
      simp only [List.mapM_cons, Option.bind_eq_bind, Option.bind_eq_some_iff, List.map_cons,
        List.cons.injEq, ← ih]
      constructor
      · rintro ⟨b', hb, l', hl, e⟩
        obtain ⟨rfl, rfl⟩ := List.cons.inj (Option.some.inj e)
        exact ⟨hb, hl⟩
      · rintro ⟨hb, hl⟩
        exact ⟨b, hb, m, hl, rfl⟩

lemma accepts_iff {sigs : List Sig} {T : τ} (hT : storable E T = true) :
    (arrayClass E (uniqueTl sigs)).accepts T = true ↔
      ∃ s ∈ sigs, E.supportsSignature T s = true := by
  have haccepts : (arrayClass E (uniqueTl sigs)).accepts T =
      (storable E T && (uniqueTl sigs).any (E.supportsSignature T)) := rfl
  rw [haccepts, hT, Bool.true_and, List.any_eq_true]
  simp only [mem_uniqueTl]

lemma compiles_iff {callables : List (Object τ Val)} {deduced : List Sig} (hne : callables ≠ [])
    (hdeduced : callables.map (fun o => D.fnSigT o.type) = deduced.map some)
    (hstore : ∀ o ∈ callables, storable E o.type = true) :
    makeFunctionArrayCompiles D (callables.map Object.type) = true ↔
      (∀ s ∈ deduced, ∀ t ∈ deduced, s.base = t.base → s = t) ∧
        ∀ o ∈ callables, ∃ s ∈ deduced, E.supportsSignature o.type s = true := by
  have hmap : (callables.map Object.type).mapM D.fnSigT = some deduced := by
    rw [mapM_eq_some_iff, List.map_map]
    exact hdeduced
  have hempty : (callables.map Object.type).isEmpty = false := by simpa using hne
  simp only [makeFunctionArrayCompiles, hempty, hmap, Bool.not_false, Bool.true_and,
    Bool.and_eq_true, Bool.not_eq_true', hasConflicting_iff, mem_uniqueTl, List.all_map,
    List.all_eq_true, Function.comp_apply]
  refine and_congr_right fun _ => forall₂_congr fun o ho => accepts_iff (hstore o ho)

end Acceptance

section Elements

variable [DecidableEq τ] {A : Env τ Val Fn} {W W' : World τ Val Fn} {w : ℕ} {o : Object τ Val}

variable (A) in
def element (ph : Phase) (o : Object τ Val) : Constant Fn × Option (Object τ Val) :=
  if ph = .constant then (constantOf A o, none) else (.inactive, some o)

lemma element_step (h : Inv A W) {a : Label τ Val} (hop : a.op = .construct w (.object o))
    (hthrew : a.threw = false) (hs : (system A).step W a W') : Inv A W' ∧ W'.phase = W.phase ∧
      view W' = Function.update (view W) w (some (element A W.phase o)) := by
  obtain ⟨-, hphase, hview⟩ := step_spec h.toWhole hs
  rw [hop] at hphase hview
  refine ⟨inv_step h hs, hphase, ?_⟩
  rw [hview, hthrew, viewStep, if_neg (by simp), sourceValue, Option.elim_some, assignView, element]
  split <;> rfl

lemma elements_path {callables : List (Object τ Val)} {run : List (Label τ Val)} (h : Inv A W)
    (hops : run.map Label.op = elementOps w callables) (hthrew : ∀ a ∈ run, a.threw = false)
    (hpath : Runs.Path (system A) run W W') : Inv A W' ∧ W'.phase = W.phase ∧
      (∀ v, v < w → view W' v = view W v) ∧
      ∀ i o, callables[i]? = some o → view W' (w + i) = some (element A W.phase o) := by
  induction callables generalizing w W run with
  | nil =>
    obtain rfl : run = [] := List.map_eq_nil_iff.mp hops
    cases hpath
    exact ⟨h, rfl, fun _ _ => rfl, fun i o e => by simp at e⟩
  | cons o rest ih =>
    cases hpath with
    | nil => simp [elementOps] at hops
    | @cons _ W₁ _ a run hs hpath =>
      rw [List.map_cons, elementOps, List.cons.injEq] at hops
      obtain ⟨h₁, hphase₁, hview₁⟩ := element_step h hops.1 (hthrew a (by simp)) hs
      obtain ⟨h', hphase, hbefore, hall⟩ :=
        ih h₁ hops.2 (fun b hb => hthrew b (by simp [hb])) hpath
      refine ⟨h', hphase.trans hphase₁, fun v hv => ?_, fun i o' ho => ?_⟩
      · rw [hbefore v (by omega), hview₁, Function.update_of_ne (by omega)]
      · cases i with
        | zero =>
          obtain rfl : o = o' := by simpa using ho
          rw [Nat.add_zero, hbefore w (by omega), hview₁, Function.update_self]
        | succ i =>
          rw [← hphase₁, show w + (i + 1) = w + 1 + i by omega]
          exact hall i o' (by simpa using ho)

variable {C : Calls τ Val Fn Raw Arg Ret Exc} {s : Sig} {mode : Mode} {cat : Category} {args : Raw}
variable {a : Arg}

lemma dispatch_element (h : Inv A W) (hrun : W.phase = .run)
    (hw : view W w = some (element A .run o)) (hx : ExactArgs C s args a)
    (hcat : A.exactInvocable o.type cat s = true) : dispatch C A W w mode cat s args =
      some (outcome s (C.invoke o.type cat s o.val a)) := by
  obtain ⟨hc, ho⟩ := view_eq_some (c := .inactive) (o := some o) hw
  rw [dispatch_content C h hc hrun rfl, convert_exact hx, ho]
  simp [contentOutcome, hcat]

lemma dispatch_constant_element (h : Inv A W) (hconst : W.phase = .constant)
    (hw : view W w = some (element A .constant o)) (hst : o.type ≠ A.staticFunction)
    (hs : s ∈ A.sigs) (hx : ExactArgs C s args a) {f : Val → Option Fn} {pointer : Fn}
    (hf : A.toPointer o.type s = some f) (hp : f o.val = some pointer) :
    dispatch C A W w mode cat s args = some (outcome s (C.apply s pointer a)) := by
  obtain ⟨hc, -⟩ := view_eq_some (c := constantOf A o) (o := none) hw
  rw [dispatch_slots C h hc (.inl hconst), invokeSlot, constantOf_slots hst hs, hf,
    Option.bind_some, hp, hx.cast]
  rfl

end Elements

lemma forwardable_of_compiles {P : Program} {s : Sig} {CallArgs : List QType} {mode : Mode}
    (h : compiles P .wrapper mode CallArgs s = true) : forwardable P s = true := by
  simp only [compiles, interfaceInvokes, Bool.and_eq_true] at h
  exact h.2.2

lemma accepted_own_iff {P : Program} {deduced : List Sig} {s : Sig} (hs : s ∈ deduced) {mode : Mode}
    (hcompiles : compiles P .wrapper mode s.exactArgs s = true)
    (hinst : uniqueTl deduced = [s] ∨ Instantiates P s.exactArgs (uniqueTl deduced)) :
    acceptedSignature P .wrapper mode (uniqueTl deduced) s.exactArgs = some s ↔
      ∀ t ∈ deduced, viable P t s.exactArgs = true → t ≠ s → Beats P s.exactArgs s t := by
  rw [acceptedSignature, Option.filter_eq_some_iff, and_iff_left hcompiles]
  by_cases hone : ∃ t, uniqueTl deduced = [t]
  · obtain ⟨t, ht⟩ := hone
    have hmem : ∀ u, u ∈ deduced → u = t := fun u hu => by
      have hu' : u ∈ uniqueTl deduced := mem_uniqueTl.mpr hu
      rwa [ht, List.mem_singleton] at hu'
    obtain rfl := hmem s hs
    rw [ht]
    exact iff_of_true rfl fun t ht _ hne => absurd (hmem t ht) hne
  · have hsigs : ∀ t, uniqueTl deduced ≠ [t] := fun t e => hone ⟨t, e⟩
    rw [select_eq_some_iff hsigs, own_selected_iff (uniqueTl_nodup deduced) (mem_uniqueTl.mpr hs)
      (forwardable_of_compiles hcompiles) (hinst.resolve_left (hsigs s))]
    simp only [mem_uniqueTl]

/-! ### Arrays -/

/-- **What becomes of an array of callables.** It compiles exactly when no two deduced signatures
differ in `noexcept` only and every callable is called as one of them. A call with exactly the
parameter types of a callable goes to its deduced signature exactly when this beats every other one
that could take them, and then returns the result of the callable. -/
theorem function_array {E : Env τ Val Fn} [DecidableEq τ] (P : Program)
    (C : Calls τ Val Fn Raw Arg Ret Exc) (D : Deduction E) {callables : List (Object τ Val)}
    {deduced : List Sig} (hne : callables ≠ [])
    (hdeduced : callables.map (fun o => D.fnSigT o.type) = deduced.map some)
    (hstore : ∀ o ∈ callables, storable E o.type = true) : ArrayOf D P C callables deduced := by
  have hown : ∀ (i : ℕ) o s, callables[i]? = some o → deduced[i]? = some s →
      D.fnSigT o.type = some s := by
    intro i o s ho hs
    have hi := congrArg (·[i]?) hdeduced
    simpa [ho, hs] using hi
  refine ⟨⟨uniqueTl_eq deduced, uniqueTl_nodup deduced⟩, compiles_iff hne hdeduced hstore,
    fun s hs mode hcompiles hinst => accepted_own_iff hs hcompiles hinst, ?_, ?_⟩
  · rintro w W W' hreach hrun ⟨run, hops, hthrew, hpath⟩ i o s mode cat args a ho hs hx hcat
    obtain ⟨hinv, hphase, -, hall⟩ := elements_path (inv_reachable hreach) hops hthrew hpath
    exact dispatch_element hinv (hphase.trans hrun) (hrun ▸ hall i o ho) hx hcat
  · rintro w W W' hreach hconst ⟨run, hops, hthrew, hpath⟩ i o s mode cat args a f pointer ho hs hx
      hf hp
    obtain ⟨hinv, hphase, -, hall⟩ := elements_path (inv_reachable hreach) hops hthrew hpath
    have hst : o.type ≠ E.staticFunction := by
      intro e
      have hfn := hown i o s ho hs
      rw [Deduction.fnSigT, e, D.staticFunction] at hfn
      cases hfn
    exact dispatch_constant_element hinv (hphase.trans hconst) (hconst ▸ hall i o ho) hst
      (mem_uniqueTl.mpr (List.mem_of_getElem? hs)) hx hf hp

/-- `double(int)`. -/
def intToDouble : Sig := ⟨.val (.arith .double), [.val (.arith .int)], false⟩

/-- `int(int) noexcept`. -/
def intToIntNoexcept : Sig := { intToInt with isNoexcept := true }

/-- Two lambdas, a function pointer and a pointer to a member function. -/
def sampleTypes : Sample → CallableType
  | .counter => .functor (.member ⟨true, false, .none⟩ intToInt)
  | .table => .functor (.member ⟨true, false, .none⟩ intToIntNoexcept)
  | .pointer => .pointer intToDouble
  | .owner => .member ⟨false, false, .none⟩ intToInt
  | .slots => .other

/-- All but the pointer to a member function are called as their signatures. -/
def arrayEnv (kind : Kind) : Env Sample ℕ ℕ :=
  { sampleEnv kind with
    exactInvocable := fun T _ s => decide (T ≠ .owner ∧ fnSig (sampleTypes T) = some s) }

def sampleDeduction (kind : Kind) : Deduction (arrayEnv kind) where
  callableType := sampleTypes
  staticFunction := rfl

theorem function_array_pair : ArrayOf (sampleDeduction .copyable) arithmeticOnly sampleCalls
    [⟨.counter, 5⟩, ⟨.pointer, 3⟩] [intToInt, intToDouble] :=
  function_array arithmeticOnly sampleCalls (sampleDeduction .copyable) (by decide) rfl (by decide)

/-- An array is rejected for `int(int)` beside `int(int) noexcept`, and for a pointer to a member
function; and with `int(int)` beside `double(int)` the call with an `int` is ambiguous. -/
theorem arrays_fail :
    (¬ ∀ kind (callables : List (Object Sample ℕ)) (deduced : List Sig), callables ≠ [] →
      callables.map (fun o => (sampleDeduction kind).fnSigT o.type) = deduced.map some →
      (∀ o ∈ callables, storable (arrayEnv kind) o.type = true) →
      makeFunctionArrayCompiles (sampleDeduction kind) (callables.map Object.type) = true) ∧
    makeFunctionArrayCompiles (sampleDeduction .copyable) [.owner] = false ∧
    ¬ ∀ kind (callables : List (Object Sample ℕ)) (deduced : List Sig), callables ≠ [] →
      callables.map (fun o => (sampleDeduction kind).fnSigT o.type) = deduced.map some →
      makeFunctionArrayCompiles (sampleDeduction kind) (callables.map Object.type) = true →
      ∀ s ∈ deduced,
        acceptedSignature arithmeticOnly .wrapper .call (uniqueTl deduced) s.exactArgs = some s := by
  refine ⟨fun h => ?_, by decide, fun h => ?_⟩
  · have hcompiles := h .copyable [⟨.counter, 5⟩, ⟨.table, 3⟩] [intToInt, intToIntNoexcept]
      (by simp) rfl (by simp [storable, arrayEnv, sampleEnv, sampleLayout])
    exact absurd hcompiles (by decide)
  · have haccepted := h .copyable [⟨.counter, 5⟩, ⟨.pointer, 3⟩] [intToInt, intToDouble]
      (by simp) rfl (by decide) intToInt (by decide)
    exact absurd haccepted (by decide)

end FunctionWrapper.FunctionArrays
