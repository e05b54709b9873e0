import FunctionWrapper.CallResult
import FunctionWrapper.DeducedSignatures
import FunctionWrapper.Dispatch
import FunctionWrapper.Runs
import FunctionWrapper.TracedRuns
import Mathlib.Logic.Equiv.Basic

/-!
`static_function`: a tuple with one function pointer for each declared signature.

A call goes to the slot of the signature it selects. What is in a slot can be told from the
operations alone, by reading them backwards: each one stores a pointer there, or takes over the slot
of an object that existed before.
-/

namespace FunctionWrapper.StaticSlots

open FunctionWrapper.Types FunctionWrapper.Traits FunctionWrapper.Signatures
open FunctionWrapper.DeducedSignatures FunctionWrapper.CallAcceptance FunctionWrapper.CallResult
open FunctionWrapper.Callables FunctionWrapper.Dispatch
open TracedRuns

/-- The declared signatures. The first two facts are `static_assert`s; of a signature declared
twice the tuple has no slot that `std::get` can name. -/
structure Declared where
  sigs : List Sig
  ne_nil : sigs ≠ []
  noConflict : hasConflictingSignatures sigs = false
  nodup : sigs.Nodup

variable {D : Declared} {Fn : Type}

/-- `static_function<Sigs...>`: the pointers of its slots. -/
structure StaticFunction (D : Declared) (Fn : Type) where
  slots : List (Option Fn)
  length_eq : slots.length = D.sigs.length

namespace StaticFunction

variable (self : StaticFunction D Fn) (s : Sig)

def empty : StaticFunction D Fn := ⟨List.replicate D.sigs.length none, by simp⟩

def containsSignature (D : Declared) (s : Sig) : Bool := decide (s ∈ D.sigs)

/-- `std::get<slot<Sig>>(m_slots).pointer`, where there is such a slot. -/
def get : Option (Option Fn) := (D.sigs.zip self.slots).lookup s

/-- `target<Sig>`. -/
def target : Option (Option Fn) := self.get s

def bind (pointer : Option Fn) : StaticFunction D Fn where
  slots := List.zipWith (fun t old => if t = s then pointer else old) D.sigs self.slots
  length_eq := by simp [self.length_eq]

def reset : StaticFunction D Fn := D.sigs.foldl (fun f s => f.bind s none) self

def hasValue : Bool := D.sigs.any fun s => (self.get s).join.isSome

def hasBoundSignature : Bool :=
  if !containsSignature D s then false else (self.target s).join.isSome

def boundSignatures : List Bool := D.sigs.map self.hasBoundSignature

end StaticFunction

abbrev Objects (D : Declared) (Fn : Type) := ℕ → Option (StaticFunction D Fn)

/-- What a `static_function` is constructed or assigned from. `made` is `make<Sig, Function>()`, or
`make<Function>()` with the signature of the function. -/
inductive Source (Fn : Type)
  | default
  | made (s : Sig) (f : Fn)
  | copied (x : ℕ)
  | moved (x : ℕ)

inductive Op (Fn : Type)
  | construct (x : ℕ) (src : Source Fn)
  | assign (x : ℕ) (src : Source Fn)
  | bind (x : ℕ) (s : Sig) (p : Option Fn)
  | reset (x : ℕ)
  | swap (x y : ℕ)
  | destroy (x : ℕ)

variable (sigOf : Fn → Sig)

/-- A move of the tuple copies its pointers. -/
def sourceValue (M : Objects D Fn) : Source Fn → Option (StaticFunction D Fn)
  | .default => some .empty
  | .made s f => do
    guard (s ∈ D.sigs ∧ sigOf f = s)
    return StaticFunction.empty.bind s (some f)
  | .copied x | .moved x => M x

/-- An operation, where it compiles and the objects it names exist. -/
def step (M : Objects D Fn) : Op Fn → Option (Objects D Fn)
  | .construct x src => do
    guard ((M x).isNone = true)
    let f ← sourceValue sigOf M src
    return Function.update M x (some f)
  | .assign x src => do
    guard ((M x).isSome = true)
    let f ← sourceValue sigOf M src
    return Function.update M x (some f)
  | .bind x s p => do
    let f ← M x
    guard (s ∈ D.sigs)
    return Function.update M x (some (f.bind s p))
  | .reset x => do
    let f ← M x
    return Function.update M x (some f.reset)
  | .swap x y => do
    let f ← M x
    let g ← M y
    return Function.update (Function.update M x (some g)) y (some f)
  | .destroy x => do
    guard ((M x).isSome = true)
    return Function.update M x none

def run (M : Objects D Fn) (ops : List (Op Fn)) : Option (Objects D Fn) := ops.foldlM (step sigOf) M

section Calls

variable {τ Val Raw Arg Ret Exc : Type} (P : Program) (V : Moves Ret Exc)
variable (C : Calls τ Val Fn Raw Arg Ret Exc)

/-- What a call does: the functions it runs, and its end. -/
abbrev StaticRun (Fn Arg Exc α : Type) := Run (Sig × Fn × Arg) (Thrown Exc) α

/-- `invoke_pointer_`: the arguments are converted inside, which is `noexcept` where the signature
is. -/
def invokePointer (s : Sig) (pointer : Fn) (args : Raw) : StaticRun Fn Arg Exc Ret :=
  let r : StaticRun Fn Arg Exc Ret := match C.cast s args with
    | .error e => .throw (.target e)
    | .ok a => .call (s, pointer, a) ((C.apply s pointer a).mapError .target)
  if s.isNoexcept then r.noexcept else r

variable (self : StaticFunction D Fn)

/-- `try_invoke_slot_`, which is not `noexcept`. -/
def tryInvokeSlot (s : Sig) (args : Raw) : Option (StaticRun Fn Arg Exc (TryCallResult Ret)) := do
  match ← self.get s with
  | none => return .ret .signatureMismatch
  | some pointer =>
    return (invokePointer C s pointer args).bind fun v =>
      .lift ((TryCallResult.success V s.ret (returned s v)).mapError .passing)

/-- `invoke_slot_`. -/
def invokeSlot (s : Sig) (args : Raw) : Option (StaticRun Fn Arg Exc (Option Ret)) := do
  match ← self.get s with
  | none => return .throw .badSignatureCall
  | some pointer => return (invokePointer C s pointer args).bind fun v => .ret (returned s v)

/-- `try_call`, in all its overloads. -/
def tryCall (args : Raw) : Option (StaticRun Fn Arg Exc (TryCallResult Ret)) := do
  let s ← acceptedSignature P .staticFunction .tryCall D.sigs (C.types args)
  tryInvokeSlot V C self s args

/-- `call` and `operator()`, in all their overloads. -/
def call (args : Raw) : Option (StaticRun Fn Arg Exc (Option Ret)) := do
  let s ← acceptedSignature P .staticFunction .call D.sigs (C.types args)
  invokeSlot C self s args

end Calls

/-! ### The pointer bound last -/

/-- Where a source has the pointer of a slot from: a new one, or the slot of another object. -/
def sourceOrigin (s : Sig) : Source Fn → Option Fn ⊕ ℕ
  | .default => .inl none
  | .made t f => .inl (if s = t then some f else none)
  | .copied x | .moved x => .inr x

/-- Where the pointer in a slot comes from. -/
def origin (y : ℕ) (s : Sig) : Op Fn → Option Fn ⊕ ℕ
  | .construct x src | .assign x src => if y = x then sourceOrigin s src else .inr y
  | .bind x t p => if y = x ∧ s = t then .inl p else .inr y
  | .reset x => if y = x then .inl none else .inr y
  | .swap x z => .inr (Equiv.swap x z y)
  | .destroy _ => .inr y

/-- The pointer that was bound last, by the operations, of which the latest comes first. -/
def lastBound : List (Op Fn) → ℕ → Sig → Option Fn
  | [], _, _ => none
  | op :: ops, y, s =>
    match origin y s op with
    | .inl p => p
    | .inr x => lastBound ops x s

variable {self : StaticFunction D Fn} {s t : Sig}

lemma lookup_zipWith {sigs : List Sig} {slots : List (Option Fn)} (p : Option Fn) :
    (sigs.zip (List.zipWith (fun t old => if t = s then p else old) sigs slots)).lookup t =
      ((sigs.zip slots).lookup t).map fun old => if t = s then p else old := by
  induction sigs generalizing slots with
  | nil => rfl
  | cons u sigs ih =>
    cases slots with
    | nil => rfl
    | cons old slots =>
      by_cases htu : t = u
      · simp [htu]
      · have hne : (t == u) = false := by simp [htu]
        simp [List.lookup_cons, hne, ih]

lemma lookup_zip_isSome {sigs : List Sig} {slots : List (Option Fn)}
    (h : slots.length = sigs.length) : ((sigs.zip slots).lookup t).isSome = decide (t ∈ sigs) := by
  induction sigs generalizing slots with
  | nil => rfl
  | cons u sigs ih =>
    cases slots with
    | nil => simp at h
    | cons old slots =>
      have hlength : slots.length = sigs.length := by simpa using h
      by_cases htu : t = u
      · simp [htu]
      · have hne : (t == u) = false := by simp [htu]
        simp [List.lookup_cons, hne, htu, ih hlength]

lemma get_isSome : (self.get t).isSome = decide (t ∈ D.sigs) := lookup_zip_isSome self.length_eq

lemma get_bind (s : Sig) (p : Option Fn) :
    (self.bind s p).get t = (self.get t).map fun old => if t = s then p else old :=
  lookup_zipWith p

lemma get_empty (ht : t ∈ D.sigs) : (StaticFunction.empty : StaticFunction D Fn).get t = some none := by
  have hsome : ((StaticFunction.empty : StaticFunction D Fn).get t).isSome = true := by
    rw [get_isSome]
    exact decide_eq_true ht
  obtain ⟨p, hp⟩ := Option.isSome_iff_exists.mp hsome
  rw [hp]
  obtain ⟨l₁, l₂, hsplit, -⟩ := List.lookup_eq_some_iff.mp hp
  have hmem : (t, p) ∈ D.sigs.zip (List.replicate D.sigs.length none) := hsplit ▸ by simp
  exact congrArg some (List.eq_of_mem_replicate (List.of_mem_zip hmem).2)

lemma get_foldl_bind (sigs : List Sig) :
    (sigs.foldl (fun f s => f.bind s none) self).get t =
      (self.get t).map fun old => if t ∈ sigs then none else old := by
  induction sigs generalizing self with
  | nil => simp
  | cons s sigs ih =>
    rw [List.foldl_cons, ih, get_bind, Option.map_map]
    congr 1
    funext old
    by_cases hts : t = s <;> simp [hts]

lemma get_reset (ht : t ∈ D.sigs) : self.reset.get t = some none := by
  have hsome : (self.get t).isSome = true := by simp [get_isSome, ht]
  obtain ⟨p, hp⟩ := Option.isSome_iff_exists.mp hsome
  rw [StaticFunction.reset, get_foldl_bind, hp]
  simp [ht]

variable {sigOf : Fn → Sig} {M M' : Objects D Fn} {op : Op Fn} {ops : List (Op Fn)}

/-- The slots hold what was bound last. -/
def Holds (M : Objects D Fn) (ops : List (Op Fn)) : Prop :=
  ∀ x f, M x = some f → ∀ s ∈ D.sigs, f.get s = some (lastBound ops x s)

lemma get_source (h : Holds M ops) {src : Source Fn} {f : StaticFunction D Fn}
    (hf : sourceValue sigOf M src = some f) (hs : s ∈ D.sigs) :
    f.get s = some (match sourceOrigin s src with
      | .inl p => p
      | .inr x => lastBound ops x s) := by
  cases src with
  | default =>
    obtain rfl := Option.some.inj hf
    exact get_empty hs
  | made t g =>
    simp only [sourceValue, Option.bind_eq_bind, Option.bind_eq_some_iff] at hf
    obtain ⟨_, -, hf⟩ := hf
    obtain rfl := Option.some.inj hf
    rw [get_bind, get_empty hs]
    rfl
  | copied x | moved x => exact h x f hf s hs

lemma holds_update {x : ℕ} {f : StaticFunction D Fn} (h : Holds M ops)
    (hwritten : ∀ s ∈ D.sigs, f.get s = some (lastBound (op :: ops) x s))
    (hrest : ∀ y s, y ≠ x → origin y s op = .inr y) :
    Holds (Function.update M x (some f)) (op :: ops) := by
  intro y g hy s hs
  by_cases hyx : y = x
  · subst hyx
    rw [Function.update_self] at hy
    obtain rfl := Option.some.inj hy
    exact hwritten s hs
  · rw [Function.update_of_ne hyx] at hy
    rw [lastBound, hrest y s hyx]
    exact h y g hy s hs

/-- **Each operation does to the slots what its origins say.** -/
theorem holds_step (h : Holds M ops) (hstep : step sigOf M op = some M') : Holds M' (op :: ops) := by
  cases op with
  | construct x src | assign x src =>
    simp only [step, Option.bind_eq_bind, Option.bind_eq_some_iff] at hstep
    obtain ⟨_, -, f, hf, hM⟩ := hstep
    obtain rfl := Option.some.inj hM
    refine holds_update h (fun s hs => ?_) fun y s hyx => by simp [origin, hyx]
    rw [get_source h hf hs]
    simp [lastBound, origin]
  | bind x t p =>
    simp only [step, Option.bind_eq_bind, Option.bind_eq_some_iff] at hstep
    obtain ⟨f, hf, _, -, hM⟩ := hstep
    obtain rfl := Option.some.inj hM
    refine holds_update h (fun s hs => ?_) fun y s hyx => by simp [origin, hyx]
    rw [get_bind, h x f hf s hs]
    by_cases hst : s = t <;> simp [lastBound, origin, hst]
  | reset x =>
    simp only [step, Option.bind_eq_bind, Option.bind_eq_some_iff] at hstep
    obtain ⟨f, hf, hM⟩ := hstep
    obtain rfl := Option.some.inj hM
    refine holds_update h (fun s hs => ?_) fun y s hyx => by simp [origin, hyx]
    rw [get_reset hs]
    simp [lastBound, origin]
  | swap x z =>
    simp only [step, Option.bind_eq_bind, Option.bind_eq_some_iff] at hstep
    obtain ⟨f, hf, g, hg, hM⟩ := hstep
    obtain rfl := Option.some.inj hM
    intro y k hy s hs
    have hswap : Function.update (Function.update M x (some g)) z (some f) = M ∘ Equiv.swap z x := by
      rw [Equiv.comp_swap_eq_update, hf, hg]
    rw [hswap, Equiv.swap_comm] at hy
    exact h _ k hy s hs
  | destroy x =>
    simp only [step, Option.bind_eq_bind, Option.bind_eq_some_iff] at hstep
    obtain ⟨_, -, hM⟩ := hstep
    obtain rfl := Option.some.inj hM
    intro y k hy s hs
    by_cases hyx : y = x
    · rw [hyx, Function.update_self] at hy
      cases hy
    · rw [Function.update_of_ne hyx] at hy
      exact h y k hy s hs

lemma holds_run (h : run sigOf (fun _ => none) ops = some M) : Holds M ops.reverse := by
  induction ops using List.reverseRecOn generalizing M with
  | nil =>
    obtain rfl := Option.some.inj h
    exact nofun
  | append_singleton ops op ih =>
    have hlast : (run sigOf (fun _ => none) ops).bind (step sigOf · op) = some M := by
      simpa [run, List.foldlM_append] using h
    obtain ⟨M₁, h₁, hstep⟩ := Option.bind_eq_some_iff.mp hlast
    rw [List.reverse_append]
    exact holds_step (ih h₁) hstep

section Seen

variable {τ Val Raw Arg Ret Exc : Type} (P : Program) (V : Moves Ret Exc)
variable (C : Calls τ Val Fn Raw Arg Ret Exc)

def ran (s : Sig) (args : Raw) : Option Fn → List (Sig × Fn × Arg)
  | none => []
  | some pointer =>
    match C.cast s args with
    | .error _ => []
    | .ok a => [(s, pointer, a)]

def functionEnding (s : Sig) (args : Raw) (pointer : Fn) : Ending (Thrown Exc) (Option Ret) :=
  match (C.cast s args).bind (C.apply s pointer) with
  | .ok v => .returns (returned s v)
  | .error e => if s.isNoexcept then .terminates else .throws (.target e)

def callEnding (s : Sig) (args : Raw) : Option Fn → Ending (Thrown Exc) (Option Ret)
  | none => .throws .badSignatureCall
  | some pointer => functionEnding C s args pointer

def tryCallEnding (s : Sig) (args : Raw) : Option Fn → Ending (Thrown Exc) (TryCallResult Ret)
  | none => .returns .signatureMismatch
  | some pointer => (functionEnding C s args pointer).bind fun v =>
      .ofExcept ((TryCallResult.success V s.ret v).mapError .passing)

lemma invokePointer_bind {β : Type} (s : Sig) (pointer : Fn) (args : Raw)
    (k : Option Ret → Except (Thrown Exc) β) :
    ((invokePointer C s pointer args).bind fun v => .lift (k (returned s v))) =
      ⟨ran C s args (some pointer),
        (functionEnding C s args pointer).bind fun v => .ofExcept (k v)⟩ := by
  rw [Run.bind_lift]
  unfold invokePointer ran functionEnding
  cases hcast : C.cast s args with
  | error e => cases hn : s.isNoexcept <;> simp [Except.bind, Run.throw, Run.noexcept, Ending.bind]
  | ok a =>
    cases happly : C.apply s pointer a <;> cases hn : s.isNoexcept <;>
      simp [Except.bind, Except.mapError, happly, Run.call, Run.noexcept, Ending.ofExcept,
        Ending.bind]

lemma invokePointer_returned (s : Sig) (pointer : Fn) (args : Raw) :
    ((invokePointer C s pointer args).bind fun v => .ret (returned s v)) =
      ⟨ran C s args (some pointer), functionEnding C s args pointer⟩ := by
  have hbind := invokePointer_bind C s pointer args (β := Option Ret) .ok
  simp only [Run.lift_ok, Ending.ofExcept] at hbind
  rw [hbind, Ending.bind_returns]

/-- A `static_function` shows the pointers, in what it tells and in what its calls run. -/
structure Shows (f : StaticFunction D Fn) (last : Sig → Option Fn) : Prop where
  target : ∀ s ∈ D.sigs, f.target s = some (last s)
  hasValue : f.hasValue = D.sigs.any fun s => (last s).isSome
  bound : f.boundSignatures = D.sigs.map fun s => (last s).isSome
  undeclared : ∀ s, s ∉ D.sigs → f.hasBoundSignature s = false
  call : ∀ args s, acceptedSignature P .staticFunction .call D.sigs (C.types args) = some s →
    call P C f args = some ⟨ran C s args (last s), callEnding C s args (last s)⟩
  tryCall : ∀ args s, acceptedSignature P .staticFunction .tryCall D.sigs (C.types args) = some s →
    tryCall P V C f args = some ⟨ran C s args (last s), tryCallEnding V C s args (last s)⟩

lemma shows_of_get {last : Sig → Option Fn} (h : ∀ s ∈ D.sigs, self.get s = some (last s)) :
    Shows P V C self last := by
  refine ⟨h, ?_, ?_, fun s hs => ?_, fun args s hs => ?_, fun args s hs => ?_⟩
  · rw [StaticFunction.hasValue, Bool.eq_iff_iff, List.any_eq_true, List.any_eq_true]
    exact exists_congr fun s => and_congr_right fun hs => by simp [h s hs]
  · refine List.map_congr_left fun s hs => ?_
    simp [StaticFunction.hasBoundSignature, StaticFunction.containsSignature, hs,
      StaticFunction.target, h s hs]
  · simp [StaticFunction.hasBoundSignature, StaticFunction.containsSignature, hs]
  · have hget := h s (accepted_mem hs)
    unfold StaticSlots.call
    simp only [hs, Option.bind_eq_bind, Option.bind_some, invokeSlot, hget]
    cases last s with
    | none => rfl
    | some pointer => exact congrArg some (invokePointer_returned C s pointer args)
  · have hget := h s (accepted_mem hs)
    unfold StaticSlots.tryCall
    simp only [hs, Option.bind_eq_bind, Option.bind_some, tryInvokeSlot, hget]
    cases last s with
    | none => rfl
    | some pointer => exact congrArg some (invokePointer_bind C s pointer args fun v =>
        (TryCallResult.success V s.ret v).mapError .passing)

/-- **A `static_function` shows what was bound last.** After every run, its slots hold the pointers
that reading the operations backwards finds; `target`, `has_value` and `bound_signatures` tell them,
and a call runs the one of the signature it selects, once, or reports a mismatch. -/
theorem shows_lastBound (h : run sigOf (fun _ => none) ops = some M) {x : ℕ}
    (hx : M x = some self) : Shows P V C self (lastBound ops.reverse x) :=
  shows_of_get P V C (holds_run h x self hx)

end Seen

def onlyInt : Declared := ⟨[intToInt], by decide, by decide, by decide⟩

/-- The second object is a copy of the first, which is bound to another function afterwards. -/
def rebound : List (Op ℕ) :=
  [.construct 0 (.made intToInt 3), .construct 1 (.copied 0), .bind 0 intToInt (some 4), .swap 0 1]

/-- After the swap the first one runs the function that was bound before the copy. -/
theorem shows_lastBound_rebound : ∃ (M : Objects onlyInt ℕ) (f : StaticFunction onlyInt ℕ),
    run (fun _ => intToInt) (fun _ => none) rebound = some M ∧ M 0 = some f ∧
      call arithmeticOnly sampleCalls f 10 = some ⟨[(intToInt, 3, 10)], .returns (some 13)⟩ ∧
      f.boundSignatures = [true] := by
  obtain ⟨M, hM⟩ : ∃ M, run (D := onlyInt) (fun _ => intToInt) (fun _ => none) rebound = some M :=
    ⟨_, rfl⟩
  obtain ⟨f, hf⟩ : ∃ f, M 0 = some f := by
    obtain rfl := Option.some.inj hM
    exact ⟨_, rfl⟩
  have hshows := shows_lastBound arithmeticOnly .keeping sampleCalls hM hf
  exact ⟨M, f, hM, hf, hshows.call 10 intToInt (by decide), hshows.bound⟩

end FunctionWrapper.StaticSlots
