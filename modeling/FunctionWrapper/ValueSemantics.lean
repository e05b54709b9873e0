import FunctionWrapper.DispatchSpec

/-!
An owning wrapper is an optional callable value.

The abstract machine knows nothing of storages, tags and buffers: copy duplicates a value, move
transfers it, swap exchanges two, reset clears. A value remembers whether it was given in constant
evaluation, since such a callable is called through its function pointers. Every run of the wrappers
is followed by the machine, and what a wrapper answers is what its value answers, except that
`target_type` and `target` answer for a value of constant evaluation as if the wrapper was empty.
-/

namespace FunctionWrapper.ValueSemantics

open FunctionWrapper.Types FunctionWrapper.Traits FunctionWrapper.Signatures
open FunctionWrapper.Callables FunctionWrapper.Storage FunctionWrapper.Lifecycle
open FunctionWrapper.StorageForms FunctionWrapper.WrapperSpec FunctionWrapper.RunInvariant
open FunctionWrapper.CallAcceptance FunctionWrapper.Dispatch FunctionWrapper.DispatchSpec

variable {τ Val Fn : Type} [DecidableEq τ]

/-- A callable, given at run time or in constant evaluation. -/
inductive Callable (τ Val : Type)
  | stored (o : Object τ Val)
  | constant (o : Object τ Val)

namespace Callable

def object : Callable τ Val → Object τ Val
  | stored o | constant o => o

def mapStored (f : Object τ Val → Object τ Val) : Callable τ Val → Callable τ Val
  | stored o => stored (f o)
  | constant o => constant o

end Callable

/-- The wrappers that exist, each with its value. -/
abbrev Values (τ Val : Type) := ℕ → Option (Option (Callable τ Val))

variable (E : Env τ Val Fn)

/-- The function pointer of a callable for a signature. -/
def pointerOf (o : Object τ Val) (s : Sig) : Option Fn :=
  if o.type = E.staticFunction then E.slotsOf o.val s
  else (E.toPointer o.type s).bind fun pointer => pointer o.val

/-- A `static_function` without a pointer is no callable. -/
def constantValue (o : Object τ Val) : Option (Callable τ Val) :=
  if o.type = E.staticFunction ∧ hasValue E (E.slotsOf o.val) = false then none
  else some (.constant o)

/-- The callable a source stands for. -/
def sourceObject (A : Values τ Val) : Source τ Val → Option (Object τ Val)
  | .object o => some o
  | .target u _ =>
    match A u with
    | some (some (.stored o)) => some o
    | _ => none

def leave (left : Object τ Val → Val) (A : Values τ Val) : Source τ Val → Values τ Val
  | .target u true => Function.update A u ((A u).map (Option.map
      (Callable.mapStored fun o => { o with val := left o })))
  | _ => A

def give (ph : Phase) (w : ℕ) (src : Source τ Val) (A : Values τ Val) : Values τ Val :=
  (sourceObject A src).elim A fun o =>
    if ph = .constant then Function.update A w (some (constantValue E o))
    else leave (fun o => E.movedFrom o.type o.val)
      (Function.update A w (some (some (.stored o)))) src

def valueStep (ph : Phase) (A : Values τ Val) : Op τ Val → Values τ Val
  | .defaultConstruct w | .reset w => Function.update A w (some none)
  | .construct w src | .assignCallable w src => give E ph w src A
  | .copyConstruct w u => Function.update A w (A u)
  | .moveConstruct w u => Function.update (Function.update A u (some none)) w (A u)
  | .copyAssign w u => if w = u then A else Function.update A w (A u)
  | .moveAssign w u =>
    if w = u then A else Function.update (Function.update A u (some none)) w (A u)
  | .swap w u => if w = u then A else Function.update (Function.update A w (A u)) u (A w)
  | .destruct w => Function.update A w none
  | .targetRuns w v => Function.update A w ((A w).map (Option.map
      (Callable.mapStored fun o => { o with val := v })))
  | .start => A

def named : Op τ Val → List ℕ
  | .defaultConstruct w | .reset w | .destruct w | .targetRuns w _ => [w]
  | .construct w (.object _) | .assignCallable w (.object _) => [w]
  | .construct w (.target u _) | .assignCallable w (.target u _) => [w, u]
  | .copyConstruct w u | .moveConstruct w u | .copyAssign w u | .moveAssign w u | .swap w u => [w, u]
  | .start => []

/-- The machine, as it follows a run. -/
def follow (q : Phase × Values τ Val) (a : Label τ Val) : Phase × Values τ Val :=
  (nextPhase q.1 a.op, valueStep E q.1 q.2 a.op)

/-- No operation throws, and no assignment reads the callable it destroys. -/
def Calm (_ : World τ Val Fn) (a : Label τ Val) : Prop := a.threw = false ∧ ¬ SelfSourced a.op

/-- Runs of the wrappers, with what the machine makes of them. -/
def followed : Runs.System (World τ Val Fn × (Phase × Values τ Val)) (Label τ Val) :=
  ((system E).restrict Calm).observed (.constant, fun _ => none) (follow E)

def valueBound (a : Option (Callable τ Val)) : List Bool :=
  E.sigs.map fun s => match a with
    | none => false
    | some (.stored o) => E.supportsSignature o.type s
    | some (.constant o) => (pointerOf E o s).isSome

def valueOutcome {Raw Arg Ret Exc : Type} (C : Calls τ Val Fn Raw Arg Ret Exc)
    (a : Option (Callable τ Val)) (mode : Mode) (cat : Category) (s : Sig) (args : Raw) :
    Outcome Ret Exc :=
  match a with
  | some (.constant o) => invokeSlot C (pointerOf E o) s args
  | some (.stored o) =>
    match convert C mode s args with
    | .error e => .propagated e
    | .ok a =>
      if E.exactInvocable o.type cat s then outcome s (C.invoke o.type cat s o.val a)
      else .failed .mismatch
  | none =>
    match convert C mode s args with
    | .error e => .propagated e
    | .ok _ => .failed .empty

variable (W : World τ Val Fn) (w : ℕ) (a : Option (Callable τ Val))

/-- The wrapper has a value, binds the signatures and takes the calls as the callable does. -/
structure Answers {Raw Arg Ret Exc : Type} (C : Calls τ Val Fn Raw Arg Ret Exc) : Prop where
  hasValue : wrapperHasValue E W w = some a.isSome
  bound : boundSignatures E W w = some (valueBound E a)
  calls : ∀ mode cat s args, s ∈ E.sigs →
    dispatch C E W w mode cat s args = some (valueOutcome E C a mode cat s args)

/-- `target_type` and `target` find the callable. -/
structure TargetAnswers : Prop where
  type : targetType E W w = some (a.map fun c => c.object.type)
  target : ∀ T, (target E W w T).map (·.bind W.mem.get) =
    some ((a.map Callable.object).filter fun o => decide (o.type = T))

variable {E W w a}

/-! ### Representation -/

variable (E) in
/-- The two stores of a wrapper that has the value. -/
inductive Represents : Constant Fn × Option (Object τ Val) → Option (Callable τ Val) → Prop
  | empty (c : Constant Fn) (hoff : c.active = false) : Represents (c, none) none
  | stored (c : Constant Fn) (hoff : c.active = false) (o : Object τ Val) :
      Represents (c, some o) (some (.stored o))
  | constant (c : Constant Fn) (hon : c.active = true) (o : Object τ Val)
      (hslots : ∀ s ∈ E.sigs, c.slots s = pointerOf E o s) :
      Represents (c, none) (some (.constant o))

variable (E) in
def Relates (V : View τ Val Fn) (A : Values τ Val) : Prop :=
  ∀ w, Option.Rel (Represents E) (V w) (A w)

variable {V : View τ Val Fn} {A : Values τ Val}

lemma Relates.update (h : Relates E V A) (w : ℕ)
    {p : Option (Constant Fn × Option (Object τ Val))} {q : Option (Option (Callable τ Val))}
    (hr : Option.Rel (Represents E) p q) :
    Relates E (Function.update V w p) (Function.update A w q) := by
  intro v
  by_cases e : v = w
  · subst e
    simpa using hr
  · simpa [e] using h v

lemma Relates.clear (h : Relates E V A) (w : ℕ) :
    Relates E (Function.update V w (some (.inactive, none))) (Function.update A w (some none)) :=
  h.update w (.some (.empty _ rfl))

lemma Relates.map (h : Relates E V A) (w : ℕ) (f : Object τ Val → Object τ Val) :
    Relates E (Function.update V w ((V w).map fun p => (p.1, p.2.map f)))
      (Function.update A w ((A w).map (Option.map (Callable.mapStored f)))) := by
  refine h.update w ?_
  have hw := h w
  generalize V w = p at hw ⊢
  generalize A w = q at hw ⊢
  cases hw with
  | none => exact .none
  | some hr =>
    refine .some ?_
    cases hr with
    | empty c hoff => exact .empty c hoff
    | stored c hoff o => exact .stored c hoff (f o)
    | constant c hon o hslots => exact .constant c hon o hslots

lemma sourceObject_eq (h : Relates E V A) (src : Source τ Val) :
    sourceObject A src = sourceValue V src := by
  cases src with
  | object o => rfl
  | target u r =>
    have hu := h u
    simp only [sourceObject, sourceValue]
    generalize V u = p at hu ⊢
    generalize A u = q at hu ⊢
    cases hu with
    | none => rfl
    | some hr => cases hr <;> rfl

lemma Relates.leave (h : Relates E V A) (left : Object τ Val → Val) (src : Source τ Val) :
    Relates E (leaveView left V src) (leave left A src) := by
  cases src with
  | object o => exact h
  | target u r =>
    cases r with
    | false => exact h
    | true => exact h.map u _

lemma represents_constantOf {o : Object τ Val}
    (hbind : o.type = E.staticFunction ∨ constexprBindable E o.type = true) :
    Represents E (constantOf E o, none) (constantValue E o) := by
  by_cases hst : o.type = E.staticFunction
  · simp only [constantOf, constantValue, hst, if_true, true_and]
    cases hv : hasValue E (E.slotsOf o.val) with
    | false => exact .empty _ rfl
    | true =>
      refine .constant _ rfl o fun s _ => ?_
      simp [pointerOf, hst]
  · have hb := hbind.resolve_left hst
    have hon : (constantOf E o).active = true := by
      rw [constantOf, if_neg hst]
      exact (bindConstexprCallable_eq (E := E) o E.sigs (fun _ => none, false)).2.trans hb
    rw [constantValue, if_neg fun h => hst h.1]
    refine .constant _ hon o fun s hs => ?_
    rw [constantOf_slots hst hs, pointerOf, if_neg hst]

lemma Relates.give (h : Relates E V A) {ph : Phase} (w : ℕ) {src : Source τ Val}
    (hbind : ph = .constant → ∀ o, sourceValue V src = some o →
      o.type = E.staticFunction ∨ constexprBindable E o.type = true) :
    Relates E ((sourceValue V src).elim V fun o => assignView E ph w src o V)
      (give E ph w src A) := by
  unfold ValueSemantics.give
  rw [sourceObject_eq h]
  rcases hsrc : sourceValue V src with _ | o
  · exact h
  · simp only [Option.elim_some, assignView]
    split
    · next hp => exact h.update w (.some (represents_constantOf (hbind hp o hsrc)))
    · exact (h.update w (.some (.stored _ rfl o))).leave _ src

/-- **The machine follows every operation.** -/
theorem relates_step (hwhole : Whole E W) (h : Relates E (view W) A) {op : Op τ Val}
    (hen : Enabled E W op) (luck : Luck) :
    Relates E (viewStep E W.phase luck false (view W) op) (valueStep E W.phase A op) := by
  have hgive : ∀ w src, SourceOk E W src → Relates E
      ((sourceValue (view W) src).elim (view W) fun o => assignView E W.phase w src o (view W))
      (give E W.phase w src A) := by
    intro w src hsrc
    refine h.give w fun hp o ho => ?_
    obtain ⟨o', ho', -, hb⟩ := sourceOk_value hwhole hsrc
    obtain rfl := Option.some.inj (ho.symm.trans ho')
    exact hb hp
  cases op with
  | defaultConstruct w => exact h.clear w
  | reset w => exact h.clear w
  | construct w src => exact hgive w src hen.2
  | assignCallable w src => exact hgive w src hen.2
  | copyConstruct w u => exact h.update w (h u)
  | moveConstruct w u => exact (h.clear u).update w (h u)
  | copyAssign w u =>
    rw [viewStep, valueStep]
    split
    · exact h
    · exact h.update w (h u)
  | moveAssign w u =>
    rw [viewStep, valueStep]
    split
    · exact h
    · exact (h.clear u).update w (h u)
  | swap w u =>
    rw [viewStep, valueStep]
    split
    · exact h
    · exact (h.update w (h u)).update u (h w)
  | destruct w => exact h.update w .none
  | targetRuns w v => exact h.map w _
  | start => exact h

theorem relates_reachable {q : World τ Val Fn × (Phase × Values τ Val)}
    (h : Runs.Reachable (followed E) q) :
    Inv E q.1 ∧ q.1.phase = q.2.1 ∧ Relates E (view q.1) q.2.2 := by
  refine Runs.Reachable.invariant
    (I := fun q => Inv E q.1 ∧ q.1.phase = q.2.1 ∧ Relates E (view q.1) q.2.2) h
    (fun q hq => ?_) fun q a q' hi hs => ?_
  · obtain ⟨h0, h1⟩ := hq
    rw [h0, h1]
    exact ⟨inv_init, rfl, fun _ => .none⟩
  · obtain ⟨W, ph, A⟩ := q
    obtain ⟨hinv, hph, hrel⟩ := hi
    obtain rfl : W.phase = ph := hph
    obtain ⟨⟨hstep, hcalm⟩, hq'⟩ := hs
    obtain ⟨-, hphase, hview⟩ := step_spec hinv.toWhole hstep
    rw [hq']
    refine ⟨inv_step hinv hstep, hphase, ?_⟩
    rw [hview, hcalm.1]
    exact relates_step hinv.toWhole hrel hstep.1 a.luck

/-! ### Answers -/

variable {Raw Arg Ret Exc : Type} (C : Calls τ Val Fn Raw Arg Ret Exc)

lemma answers_of_represents (hinv : Inv E W) (hrun : W.phase = .run)
    {p : Constant Fn × Option (Object τ Val)} (hp : view W w = some p) (hr : Represents E p a) :
    Answers E W w a C := by
  obtain ⟨c, o⟩ := p
  obtain ⟨hc, ho⟩ := view_eq_some hp
  obtain ⟨self, hs⟩ := hinv.toWhole.storage (w := w) (by simp [Live, hc])
  cases hr with
  | empty _ hoff =>
    refine ⟨by simp [wrapperHasValue_eq hinv hc hrun, hoff, ho], ?_, fun mode cat t args _ => ?_⟩
    · simp [boundSignatures_content hinv hc hrun hoff, valueBound, ho]
    · rw [dispatch_storage C hinv hc hrun hoff, valueOutcome]
      cases convert C mode t args with
      | error e => rfl
      | ok b => exact dispatchInterface_empty C hinv.store hs ho b
  | stored _ hoff o =>
    refine ⟨by simp [wrapperHasValue_eq hinv hc hrun, ho], ?_, fun mode cat t args _ => ?_⟩
    · simp [boundSignatures_content hinv hc hrun hoff, valueBound, ho]
    · rw [dispatch_storage C hinv hc hrun hoff, valueOutcome]
      cases convert C mode t args with
      | error e => rfl
      | ok b => exact dispatchInterface_stored C hinv.store hs ho b
  | constant _ hon o hslots =>
    refine ⟨by simp [wrapperHasValue_eq hinv hc hrun, hon], ?_, fun mode cat t args ht => ?_⟩
    · rw [boundSignatures_slots hinv hc (.inr hon), valueBound, Option.some.injEq]
      exact List.map_congr_left fun t ht => by rw [hslots t ht]
    · rw [dispatch_slots C hinv hc (.inr hon), valueOutcome, invokeSlot, invokeSlot, hslots t ht]

/-- `target_type` and `target` see the storage only. -/
lemma targetAnswers_iff (hinv : Inv E W) {p : Constant Fn × Option (Object τ Val)}
    (hp : view W w = some p) (hr : Represents E p a) :
    TargetAnswers E W w a ↔ ∀ o, a ≠ some (.constant o) := by
  obtain ⟨c, o⟩ := p
  obtain ⟨hc, ho⟩ := view_eq_some hp
  have hw : Live W w := by simp [Live, hc]
  cases hr with
  | empty _ hoff =>
    refine ⟨fun _ o => by simp, fun _ => ⟨by simp [targetType_eq hinv hw, ho], fun T => ?_⟩⟩
    simp [target_eq hinv hw, ho]
  | stored _ hoff o =>
    obtain ⟨k, hk, hget⟩ := Option.bind_eq_some_iff.mp ho
    refine ⟨fun _ o => by simp, fun _ => ⟨?_, fun T => ?_⟩⟩
    · simp [targetType_eq hinv hw, ho, Callable.object]
    · by_cases hT : o.type = T <;>
        simp [target_eq hinv hw, ho, hk, hget, Callable.object, Option.filter, hT]
  | constant _ hon o hslots =>
    refine ⟨fun h => ?_, fun h => absurd rfl (h o)⟩
    have htype := h.type
    simp [targetType_eq hinv hw, ho] at htype

omit [DecidableEq τ] in
lemma leave_of_not_source {left : Object τ Val → Val} {src : Source τ Val} {v : ℕ}
    (h : ∀ r, src ≠ .target v r) : leave left A src v = A v := by
  cases src with
  | object o => rfl
  | target u r =>
    have hvu : v ≠ u := fun e => h r (e ▸ rfl)
    cases r with
    | false => rfl
    | true => simp [leave, hvu]

lemma valueStep_frame {ph : Phase} {op : Op τ Val} {v : ℕ} (hv : v ∉ named op) :
    valueStep E ph A op v = A v := by
  have hgive : ∀ w src, v ≠ w → (∀ r, src ≠ .target v r) → give E ph w src A v = A v := by
    intro w src hvw hsrc
    unfold give
    rcases sourceObject A src with _ | o
    · rfl
    · simp only [Option.elim_some]
      split
      · simp [hvw]
      · rw [leave_of_not_source hsrc, Function.update_of_ne hvw]
  cases op with
  | construct w src =>
    cases src with
    | object o => exact hgive w _ (by simpa [named] using hv) (by simp)
    | target u r =>
      simp only [named, List.mem_cons, List.not_mem_nil, or_false, not_or] at hv
      exact hgive w _ hv.1 fun r' e => hv.2 (Source.target.inj e).1.symm
  | assignCallable w src =>
    cases src with
    | object o => exact hgive w _ (by simpa [named] using hv) (by simp)
    | target u r =>
      simp only [named, List.mem_cons, List.not_mem_nil, or_false, not_or] at hv
      exact hgive w _ hv.1 fun r' e => hv.2 (Source.target.inj e).1.symm
  | start => rfl
  | defaultConstruct w => simp_all [named, valueStep]
  | reset w => simp_all [named, valueStep]
  | destruct w => simp_all [named, valueStep]
  | targetRuns w v => simp_all [named, valueStep]
  | copyConstruct w u => simp_all [named, valueStep]
  | moveConstruct w u => simp_all [named, valueStep]
  | copyAssign w u =>
    simp only [named, List.mem_cons, List.not_mem_nil, or_false, not_or] at hv
    rw [valueStep]
    split <;> simp [hv]
  | moveAssign w u =>
    simp only [named, List.mem_cons, List.not_mem_nil, or_false, not_or] at hv
    rw [valueStep]
    split <;> simp [hv]
  | swap w u =>
    simp only [named, List.mem_cons, List.not_mem_nil, or_false, not_or] at hv
    rw [valueStep]
    split <;> simp [hv]

theorem followed_of_reachable (h : Runs.Reachable ((system E).restrict Calm) W) :
    ∃ q, Runs.Reachable (followed E) (W, q) := h.observed

lemma followed_step {q : Phase × Values τ Val} (h : Runs.Reachable (followed E) (W, q))
    (op : Op τ Val) (n : ℕ) {W' : World τ Val Fn} (hen : Enabled E W op)
    (hblock : FreeBlock W n op) (he : exec E op ⟨false, false, n⟩ W = some (W', false))
    (hself : ¬ SelfSourced op) :
    Runs.Reachable (followed E) (W', (nextPhase q.1 op, valueStep E q.1 q.2 op)) :=
  h.step (a := ⟨op, ⟨false, false, n⟩, false⟩) ⟨⟨⟨hen, hblock, he⟩, rfl, hself⟩, rfl⟩

lemma represents_reachable {ph : Phase} (h : Runs.Reachable (followed E) (W, (ph, A)))
    (ha : A w = some a) : ∃ p, view W w = some p ∧ Represents E p a := by
  have hw := (relates_reachable h).2.2 w
  simp only [ha] at hw
  generalize view W w = p at hw
  cases hw with
  | some hr => exact ⟨_, rfl, hr⟩

lemma answers_reachable {ph : Phase} (h : Runs.Reachable (followed E) (W, (ph, A)))
    (hrun : W.phase = .run) (ha : A w = some a) : Answers E W w a C := by
  obtain ⟨p, hp, hr⟩ := represents_reachable h ha
  exact answers_of_represents C (relates_reachable h).1 hrun hp hr

/-- **Value semantics.** After every run the wrappers that exist are those of the machine; each one
has a value, binds signatures and takes calls as its value does; `target_type` and `target` answer
for the value exactly when it was not given in constant evaluation; and the next operation changes
no value but those it names. -/
theorem value_semantics {ph : Phase} (h : Runs.Reachable (followed E) (W, (ph, A)))
    (hrun : W.phase = .run) :
    (∀ w, Live W w ↔ A w ≠ none) ∧
    (∀ w a, A w = some a → Answers E W w a C ∧
      (TargetAnswers E W w a ↔ ∀ o, a ≠ some (.constant o))) ∧
    ∀ op v, v ∉ named op → valueStep E ph A op v = A v := by
  obtain ⟨hinv, -, hrel⟩ := relates_reachable h
  refine ⟨fun w => ?_, fun w a ha => ?_, fun op v hv => valueStep_frame hv⟩
  · have hw := hrel w
    rw [← not_iff_not, not_not, ← view_eq_none]
    simp only at hw
    generalize view W w = p at hw ⊢
    generalize A w = q at hw ⊢
    cases hw <;> simp
  · obtain ⟨p, hp, hr⟩ := represents_reachable h ha
    exact ⟨answers_reachable C h hrun ha, targetAnswers_iff hinv hp hr⟩

def constantRun : List (Op Sample ℕ) := [.construct 0 (.object ⟨.pointer, 3⟩), .start]

def constantWorld (n : ℕ) : World Sample ℕ ℕ := play (sampleEnv .copyable) (constantRun.take n)

def constantValues : Values Sample ℕ :=
  Function.update (fun _ => none) 0 (some (some (.constant ⟨.pointer, 3⟩)))

lemma constantWorld_made : Runs.Reachable (followed (sampleEnv .copyable))
    (constantWorld 1, (.constant, constantValues)) := by
  have h0 : Runs.Reachable (followed (sampleEnv .copyable))
      (constantWorld 0, (.constant, fun _ => none)) := .init ⟨rfl, rfl⟩
  exact followed_step h0 (.construct 0 (.object ⟨.pointer, 3⟩)) 0
    ⟨not_not_intro rfl, rfl, fun _ => .inr rfl⟩ rfl rfl id

lemma constantWorld_followed :
    Runs.Reachable (followed (sampleEnv .copyable)) (constantWorld 2, (.run, constantValues)) :=
  followed_step constantWorld_made .start 1 rfl rfl rfl id

theorem value_semantics_sample :
    (∀ w, Live (constantWorld 2) w ↔ constantValues w ≠ none) ∧
    (∀ w a, constantValues w = some a →
      Answers (sampleEnv .copyable) (constantWorld 2) w a sampleCalls ∧
      (TargetAnswers (sampleEnv .copyable) (constantWorld 2) w a ↔ ∀ o, a ≠ some (.constant o))) ∧
    ∀ op v, v ∉ named op →
      valueStep (sampleEnv .copyable) .run constantValues op v = constantValues v :=
  value_semantics sampleCalls constantWorld_followed rfl

/-- `target_type` is `void` although the wrapper has a value. -/
theorem target_unanswered :
    ¬ ∀ W ph A, Runs.Reachable (followed (sampleEnv .copyable)) (W, (ph, A)) → W.phase = .run →
      ∀ w a, A w = some a → Answers (sampleEnv .copyable) W w a sampleCalls ∧
        TargetAnswers (sampleEnv .copyable) W w a := by
  intro h
  have htarget := (h _ _ _ constantWorld_followed rfl 0 _ rfl).2.type
  exact absurd htarget (by decide)

end FunctionWrapper.ValueSemantics
