import FunctionWrapper.WrapperSpec

/-!
What a step does to the wrappers, and the invariant of whole runs.
-/

namespace FunctionWrapper.RunInvariant

open FunctionWrapper.Signatures FunctionWrapper.Callables FunctionWrapper.Storage
open FunctionWrapper.Lifecycle FunctionWrapper.StorageForms FunctionWrapper.WrapperSpec
open OwnedCells

variable {τ Val Fn : Type} [DecidableEq τ] {E : Env τ Val Fn}
variable {W : World τ Val Fn} {w u : ℕ} {luck : Luck}

/-- The assignment reads its callable out of the wrapper it assigns to. -/
def SelfSourced : Op τ Val → Prop
  | .assignCallable w (.target u _) => u = w
  | _ => False

variable (E) in
/-- What an operation does to the wrappers. -/
def viewStep (ph : Phase) (luck : Luck) (threw : Bool) (V : View τ Val Fn) :
    Op τ Val → View τ Val Fn
  | .defaultConstruct w | .reset w => Function.update V w (some (.inactive, none))
  | .construct w src =>
    if threw then leaveView (leftover E luck true) V src
    else (sourceValue V src).elim V fun o => assignView E ph w src o V
  | .copyConstruct w u => if threw then V else Function.update V w (V u)
  | .moveConstruct w u => Function.update (Function.update V u (some (.inactive, none))) w (V u)
  | .copyAssign w u =>
    if w = u then V
    else Function.update V w (if threw then (V u).map fun p => (p.1, none) else V u)
  | .moveAssign w u =>
    if w = u then V
    else Function.update (Function.update V u (some (.inactive, none))) w (V u)
  | .assignCallable w src =>
    if threw then leaveView (leftover E luck true) (Function.update V w (some (.inactive, none))) src
    else (sourceValue V src).elim V fun o => assignView E ph w src o V
  | .swap w u => if w = u then V else Function.update (Function.update V w (V u)) u (V w)
  | .destruct w => Function.update V w none
  | .targetRuns w v => Function.update V w ((V w).map fun p =>
      (p.1, p.2.map fun o => { o with val := v }))
  | .start => V

def nextPhase (ph : Phase) : Op τ Val → Phase
  | .start => .run
  | _ => ph

/-- **Every operation runs, and does what `viewStep` says.** -/
theorem exec_spec (h : Whole E W) {op : Op τ Val} (hen : Enabled E W op)
    (hblock : FreeBlock W luck.block op) (hself : ¬ SelfSourced op) :
    ∃ W' threw, exec E op luck W = some (W', threw) ∧ Whole E W' ∧
      W'.phase = nextPhase W.phase op ∧ view W' = viewStep E W.phase luck threw (view W) op := by
  cases op with
  | defaultConstruct w =>
    obtain ⟨hw, hv⟩ := defaultConstruct_spec h hen
    exact ⟨_, false, rfl, hw, rfl, hv⟩
  | construct w src =>
    obtain ⟨W', threw, o, e, hw, hp, ho, hv⟩ := construct_spec h hen.1 hen.2 hblock
    refine ⟨W', threw, e, hw, hp, ?_⟩
    rw [hv, viewStep, ho]
    rfl
  | copyConstruct w u => exact copyConstruct_spec h hen.1 hen.2.1 hen.2.2 hblock
  | moveConstruct w u =>
    obtain ⟨W', e, hw, hp, hv⟩ := moveConstruct_spec h hen.1 hen.2
    exact ⟨W', false, by simp [exec, e], hw, hp, hv⟩
  | copyAssign w u => exact copyAssign_spec h hen.1 hen.2.1 hen.2.2 hblock
  | moveAssign w u =>
    obtain ⟨W', e, hw, hp, hv⟩ := moveAssign_spec h hen.1 hen.2
    exact ⟨W', false, by simp [exec, e], hw, hp, hv⟩
  | assignCallable w src =>
    have hother : ∀ r, src ≠ .target w r := by
      rintro r rfl
      exact hself rfl
    obtain ⟨W', threw, o, e, hw, hp, ho, hv⟩ := assignCallable_spec h hen.1 hen.2 hother hblock
    refine ⟨W', threw, e, hw, hp, ?_⟩
    rw [hv, viewStep, ho]
    rfl
  | reset w =>
    obtain ⟨W', e, hw, hp, hv, -⟩ := reset_spec h hen
    exact ⟨W', false, by simp [exec, e], hw, hp, hv⟩
  | swap w u =>
    obtain ⟨W', e, hw, hp, hv⟩ := swap_spec h hen.1 hen.2
    exact ⟨W', false, by simp [exec, e], hw, hp, hv⟩
  | destruct w =>
    obtain ⟨W', e, hw, hp, hv⟩ := destruct_spec h hen
    exact ⟨W', false, by simp [exec, e], hw, hp, hv⟩
  | targetRuns w v =>
    obtain ⟨hp, hlive, o, ho⟩ := hen
    obtain ⟨W', e, hw, hp', hv⟩ := targetRuns_spec h hp ho v
    refine ⟨W', false, by simp [exec, e], hw, hp', ?_⟩
    rw [read_target] at ho
    obtain ⟨c, hc⟩ := Option.ne_none_iff_exists'.mp hlive
    rw [hv, viewStep, view_of_live hc, ho]
    rfl
  | start =>
    refine ⟨{ W with phase := .run }, false, rfl, ⟨⟨h.store.sound, h.store.owned, h.store.holds⟩,
      h.tmp, h.made, fun hp => by cases hp⟩, rfl, rfl⟩

def EveryWrapper (Q : Constant Fn → Option (Object τ Val) → Prop) (V : View τ Val Fn) : Prop :=
  ∀ w c o, V w = some (c, o) → Q c o

section EveryWrapper

variable {Q : Constant Fn → Option (Object τ Val) → Prop} {V : View τ Val Fn}

omit [DecidableEq τ] in
lemma EveryWrapper.update (h : EveryWrapper Q V) {w : ℕ}
    {p : Option (Constant Fn × Option (Object τ Val))} (hp : ∀ c o, p = some (c, o) → Q c o) :
    EveryWrapper Q (Function.update V w p) := by
  intro v c o hv
  by_cases e : v = w
  · subst e
    rw [Function.update_self] at hv
    exact hp c o hv
  · rw [Function.update_of_ne e] at hv
    exact h v c o hv

omit [DecidableEq τ] in
lemma EveryWrapper.set (h : EveryWrapper Q V) {w : ℕ} {c : Constant Fn}
    {o : Option (Object τ Val)} (hc : Q c o) :
    EveryWrapper Q (Function.update V w (some (c, o))) :=
  h.update fun c' o' e => by
    obtain ⟨rfl, rfl⟩ := Prod.mk.inj (Option.some.inj e)
    exact hc

omit [DecidableEq τ] in
lemma EveryWrapper.map (h : EveryWrapper Q V) {w : ℕ} {f : Object τ Val → Object τ Val}
    (hf : ∀ c o, V w = some (c, some o) → Q c (some (f o))) :
    EveryWrapper Q (Function.update V w ((V w).map fun p => (p.1, p.2.map f))) := by
  refine h.update fun c o e => ?_
  obtain ⟨⟨c', o'⟩, hV, e'⟩ := Option.map_eq_some_iff.mp e
  obtain ⟨rfl, rfl⟩ := Prod.mk.inj e'
  cases o' with
  | none => exact h w c' none hV
  | some o => exact hf c' o hV

/-- **A property of single wrappers is kept by an operation** when the empty wrapper has it, it does
not depend on the presence of the callable, what a construction leaves of its source keeps it, and
what the operation gives or leaves to a wrapper has it. -/
theorem everyWrapper_viewStep {ph : Phase} {threw : Bool} {op : Op τ Val}
    (hidle : Q .inactive none) (hdrop : ∀ c o, Q c o → Q c none)
    (hleft : ∀ threw c o, Q c (some o) → Q c (some { o with val := leftover E luck threw o }))
    (hgiven : ∀ w src o, op = .construct w src ∨ op = .assignCallable w src →
      sourceValue V src = some o →
        (ph = .constant → Q (constantOf E o) none) ∧ (ph ≠ .constant → Q .inactive (some o)))
    (hruns : ∀ w v c o, op = .targetRuns w v → V w = some (c, some o) →
      Q c (some { o with val := v }))
    (h : EveryWrapper Q V) : EveryWrapper Q (viewStep E ph luck threw V op) := by
  have hleave : ∀ src threw (U : View τ Val Fn), EveryWrapper Q U →
      EveryWrapper Q (leaveView (leftover E luck threw) U src) := by
    intro src threw U hU
    cases src with
    | object o => exact hU
    | target u r =>
      cases r with
      | false => exact hU
      | true => exact hU.map fun c o hV => hleft threw c o (hU u c _ hV)
  have hassign : ∀ w src, op = .construct w src ∨ op = .assignCallable w src →
      EveryWrapper Q ((sourceValue V src).elim V fun o => assignView E ph w src o V) := by
    intro w src hop
    rcases hsrc : sourceValue V src with _ | o
    · exact h
    · obtain ⟨hconstant, hstored⟩ := hgiven w src o hop hsrc
      simp only [Option.elim_some, assignView]
      split
      · next hp => exact h.set (hconstant hp)
      · next hp =>
        exact hleave src false _ (h.set (hstored hp))
  cases op with
  | defaultConstruct w => exact h.set hidle
  | reset w => exact h.set hidle
  | construct w src =>
    rw [viewStep]
    split
    · exact hleave src true V h
    · exact hassign w src (.inl rfl)
  | copyConstruct w u =>
    rw [viewStep]
    split
    · exact h
    · exact h.update fun c o e => h u c o e
  | moveConstruct w u => exact (h.set hidle).update fun c o e => h u c o e
  | copyAssign w u =>
    rw [viewStep]
    split
    · exact h
    · refine h.update fun c o e => ?_
      cases threw with
      | false => exact h u c o e
      | true =>
        obtain ⟨⟨c', o'⟩, hV, e'⟩ := Option.map_eq_some_iff.mp e
        obtain ⟨rfl, rfl⟩ := Prod.mk.inj e'
        exact hdrop c' o' (h u c' o' hV)
  | moveAssign w u =>
    rw [viewStep]
    split
    · exact h
    · exact (h.set hidle).update fun c o e => h u c o e
  | assignCallable w src =>
    rw [viewStep]
    split
    · exact hleave src true _ (h.set hidle)
    · exact hassign w src (.inr rfl)
  | swap w u =>
    rw [viewStep]
    split
    · exact h
    · exact (h.update fun c o e => h u c o e).update fun c o e => h w c o e
  | destruct w => exact h.update fun c o e => by cases e
  | targetRuns w v => exact h.map fun c o hV => hruns w v c o rfl hV
  | start => exact h

end EveryWrapper

variable (E) in
/-- An inactive pointer store has no live slot, and an active one goes with an empty storage. -/
structure Coherent (c : Constant Fn) (o : Option (Object τ Val)) : Prop where
  idle : c.active = false → ∀ s ∈ E.sigs, c.slots s = none
  alone : c.active = true → o = none

variable (E) in
def CoherentView (V : View τ Val Fn) : Prop := ∀ w c o, V w = some (c, o) → Coherent E c o

omit [DecidableEq τ] in
lemma coherent_inactive (o : Option (Object τ Val)) : Coherent E (.inactive : Constant Fn) o :=
  ⟨fun _ _ _ => rfl, fun h => by cases h⟩

omit [DecidableEq τ] in
lemma bindConstexprCallable_eq (o : Object τ Val) (sigs : List Sig) (acc : Slots Fn × Bool) :
    (∀ s, (bindConstexprCallable E o sigs acc).1 s =
      if s ∈ sigs then ((E.toPointer o.type s).map fun f => f o.val).getD (acc.1 s) else acc.1 s) ∧
    (bindConstexprCallable E o sigs acc).2 =
      (acc.2 || sigs.any fun s => (E.toPointer o.type s).isSome) := by
  induction sigs generalizing acc with
  | nil => simp [bindConstexprCallable]
  | cons t rest ih =>
    obtain ⟨slots, any⟩ := acc
    simp only [bindConstexprCallable]
    cases ht : E.toPointer o.type t with
    | none =>
      obtain ⟨h1, h2⟩ := ih (slots, any)
      refine ⟨fun s => ?_, by simp [h2, ht]⟩
      rw [h1]
      by_cases hst : s = t
      · subst hst; simp [ht]
      · simp [hst]
    | some f =>
      obtain ⟨h1, h2⟩ := ih (Function.update slots t (f o.val), true)
      refine ⟨fun s => ?_, by simp [h2, ht]⟩
      rw [h1]
      by_cases hst : s = t
      · subst hst; simp [ht]
      · simp [hst]

lemma constantOf_slots {o : Object τ Val} (hst : o.type ≠ E.staticFunction) {s : Sig}
    (hs : s ∈ E.sigs) : (constantOf E o).slots s =
      (E.toPointer o.type s).bind fun pointer => pointer o.val := by
  rw [constantOf, if_neg hst]
  refine ((bindConstexprCallable_eq (E := E) o E.sigs (fun _ => none, false)).1 s).trans ?_
  rw [if_pos hs]
  rcases E.toPointer o.type s with _ | f <;> rfl

lemma coherent_constantOf {o : Object τ Val} : Coherent E (constantOf E o) none := by
  refine ⟨fun hoff s hs => ?_, fun _ => rfl⟩
  unfold constantOf at hoff ⊢
  by_cases hst : o.type = E.staticFunction
  · simp only [hst, if_true, hasValue, List.any_eq_false, Bool.not_eq_true] at hoff ⊢
    simpa using hoff s hs
  · simp only [hst, if_false] at hoff ⊢
    obtain ⟨h1, h2⟩ := bindConstexprCallable_eq (E := E) o E.sigs (fun _ => none, false)
    rw [h2, Bool.false_or, List.any_eq_false] at hoff
    have hnone : E.toPointer o.type s = none := by simpa using hoff s hs
    rw [h1]
    simp [hnone]

/-- **Coherence is kept by every operation.** -/
theorem coherent_viewStep {ph : Phase} {luck : Luck} {threw : Bool} {V : View τ Val Fn} (h : CoherentView E V)
    (op : Op τ Val) : CoherentView E (viewStep E ph luck threw V op) := by
  -- the value of a callable does not matter
  have hvalue : ∀ (c : Constant Fn) (o o' : Object τ Val),
      Coherent E c (some o) → Coherent E c (some o') :=
    fun c o o' hc => ⟨hc.idle, fun hon => by cases hc.alone hon⟩
  exact everyWrapper_viewStep (coherent_inactive none) (fun c o hc => ⟨hc.idle, fun _ => rfl⟩)
    (fun _ c o hc => hvalue c o _ hc)
    (fun w src o _ _ => ⟨fun _ => coherent_constantOf, fun _ => coherent_inactive _⟩)
    (fun w v c o _ hV => hvalue c o _ (h w c _ hV)) h

/-! ### Runs -/

variable (E) in
structure Inv (W : World τ Val Fn) : Prop extends Whole E W where
  coherent : CoherentView E (view W)

omit [DecidableEq τ] in
lemma inv_init : Inv E (.init : World τ Val Fn) where
  store := ⟨Cells.sound_init, Cells.ownedBy_init, fun p s hs => by cases hs⟩
  tmp := rfl
  made _ := ⟨fun _ => rfl, fun _ => rfl⟩
  still _ _ := rfl
  coherent w c o h := by cases h

lemma not_selfSourced (h : Whole E W) {op : Op τ Val} (hen : Enabled E W op)
    {r : World τ Val Fn × Bool} (e : exec E op luck W = some r) : ¬ SelfSourced op := by
  intro hself
  cases op with
  | assignCallable w src =>
    cases src with
    | object o => cases hself
    | target u r =>
      obtain rfl : u = w := hself
      rw [exec, assignCallable_self h hen.1 hen.2.1] at e
      cases e
  | _ => cases hself

/-- What a step of a run does. -/
lemma step_spec {a : Label τ Val} {W' : World τ Val Fn} (h : Whole E W)
    (hs : (system E).step W a W') : Whole E W' ∧ W'.phase = nextPhase W.phase a.op ∧
      view W' = viewStep E W.phase a.luck a.threw (view W) a.op := by
  obtain ⟨hen, hblock, he⟩ := hs
  obtain ⟨W₁, threw, e, hw, hphase, hview⟩ := exec_spec h hen hblock (not_selfSourced h hen he)
  rw [e] at he
  obtain ⟨rfl, rfl⟩ := Prod.mk.inj (Option.some.inj he)
  exact ⟨hw, hphase, hview⟩

lemma inv_step {a : Label τ Val} {W' : World τ Val Fn} (h : Inv E W)
    (hs : (system E).step W a W') : Inv E W' := by
  obtain ⟨hw, -, hview⟩ := step_spec h.toWhole hs
  exact ⟨hw, hview ▸ coherent_viewStep h.coherent a.op⟩

/-- **The invariant holds in every reachable world.** -/
theorem inv_reachable (h : Runs.Reachable (system E) W) : Inv E W :=
  h.invariant (fun _ h0 => h0 ▸ inv_init) fun _ _ _ hi hs => inv_step hi hs

variable (E) in
def play (ops : List (Op τ Val)) : World τ Val Fn :=
  ops.zipIdx.foldl (fun W a => ((exec E a.1 ⟨false, false, a.2⟩ W).map Prod.fst).getD W) .init

variable (E) in
lemma started_reachable : Runs.Reachable (system E) (play E [.start]) := by
  have h0 : Runs.Reachable (system E) (play E []) := .init rfl
  exact h0.step (a := ⟨.start, ⟨false, false, 0⟩, false⟩) ⟨rfl, rfl, rfl⟩

/-- A callable on the heap and one in the buffer change places. -/
def sampleRun : List (Op Sample ℕ) :=
  [.start, .construct 0 (.object ⟨.table, 7⟩), .construct 1 (.object ⟨.owner, 5⟩), .swap 0 1]

def sampleWorld (n : ℕ) : World Sample ℕ ℕ := play (sampleEnv .copyable) (sampleRun.take n)

lemma sampleWorld_made : Runs.Reachable (system (sampleEnv .copyable)) (sampleWorld 3) := by
  have h1 : Runs.Reachable (system (sampleEnv .copyable)) (sampleWorld 1) := started_reachable _
  have h2 : Runs.Reachable (system (sampleEnv .copyable)) (sampleWorld 2) :=
    h1.step (a := ⟨.construct 0 (.object ⟨.table, 7⟩), ⟨false, false, 1⟩, false⟩)
      ⟨⟨not_not_intro rfl, rfl, nofun⟩, rfl, rfl⟩
  exact h2.step (a := ⟨.construct 1 (.object ⟨.owner, 5⟩), ⟨false, false, 2⟩, false⟩)
    ⟨⟨not_not_intro rfl, rfl, nofun⟩, rfl, rfl⟩

lemma sampleWorld_reachable : Runs.Reachable (system (sampleEnv .copyable)) (sampleWorld 4) :=
  sampleWorld_made.step (a := ⟨.swap 0 1, ⟨false, false, 3⟩, false⟩)
    ⟨⟨Option.some_ne_none _, Option.some_ne_none _⟩, rfl, rfl⟩

end FunctionWrapper.RunInvariant
