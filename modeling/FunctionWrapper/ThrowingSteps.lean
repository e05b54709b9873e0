import FunctionWrapper.Dispatch

/-!
What is left when a construction or an assignment throws.

An assignment clears its target before it constructs, so that a throwing constructor, or `operator
new`, leaves the target empty. The other wrappers are as they were, but for one whose callable was to
be moved: what a constructor that throws leaves of its rvalue is its own affair.
-/

namespace FunctionWrapper.ThrowingSteps

open FunctionWrapper.Callables FunctionWrapper.Storage FunctionWrapper.Lifecycle
open FunctionWrapper.StorageForms FunctionWrapper.WrapperSpec FunctionWrapper.RunInvariant
open FunctionWrapper.Dispatch
open OwnedCells

variable {τ Val Fn : Type} [DecidableEq τ] {E : Env τ Val Fn}
variable {W W' : World τ Val Fn} {w u : ℕ} {p q : Place} {luck : Luck} {op : Op τ Val}

/-- The other storages keep their words. -/
def Keeps (p : Place) (W W' : World τ Val Fn) : Prop := ∀ q, q ≠ p → W'.storages q = W.storages q

omit [DecidableEq τ] in
lemma keeps_set (m : Mem τ Val) (s : WrapperStorage) :
    Keeps p W (({ W with mem := m } : World τ Val Fn).setStorage p s) := fun q hq => by
  simp [World.setStorage, hq]

omit [DecidableEq τ] in
lemma Keeps.trans {W'' : World τ Val Fn} (h : Keeps p W W') (h' : Keeps p W' W'') :
    Keeps p W W'' := fun q hq => (h' q hq).trans (h q hq)

lemma keeps_resetStorage (e : resetStorage E p W = some W') : Keeps p W W' := by
  simp only [resetStorage, Option.bind_eq_bind, Option.bind_eq_some_iff] at e
  obtain ⟨s, -, e⟩ := e
  split at e
  · obtain rfl := Option.some.inj e
    exact keeps_set _ _
  · split at e
    · simp only [Option.bind_eq_some_iff] at e
      obtain ⟨T, -, r, -, e⟩ := e
      obtain rfl := Option.some.inj e
      exact keeps_set _ _
    · obtain rfl := Option.some.inj e
      exact fun _ _ => rfl

lemma keeps_reset (e : reset E w W = some W') : Keeps (.of w) W W' := by
  unfold reset at e
  dsimp only at e
  split at e
  · obtain rfl := Option.some.inj e
    exact fun _ _ => rfl
  · exact fun q hq => keeps_resetStorage e q hq

lemma copyStorage_threw (e : copyStorage E q p luck W = some (W', true)) :
    Keeps q W W' ∧ ∃ s, W.storages p = some s ∧ s.vtablePtr ≠ 0 := by
  simp only [copyStorage, Option.bind_eq_bind, Option.bind_eq_some_iff] at e
  obtain ⟨d, -, s, hs, e⟩ := e
  split at e
  · obtain ⟨r, -, e⟩ := Option.bind_eq_some_iff.mp e
    cases e
  · split at e
    · next hvt =>
      simp only [Option.bind_eq_some_iff] at e
      obtain ⟨T, -, -, -, r, -, e⟩ := e
      obtain ⟨rfl, -⟩ := Prod.mk.inj (Option.some.inj e)
      exact ⟨keeps_set _ _, s, hs, hvt⟩
    · simp at e

omit [DecidableEq τ] in
lemma keeps_leave (left : Object τ Val → Val) (src : Source τ Val) :
    Keeps p W (src.leave left W) := by
  intro q _
  rcases src with o | ⟨u, _ | _⟩
  · rfl
  · rfl
  · unfold Source.leave
    dsimp only
    split
    · rfl
    · split <;> rfl

lemma keeps_assign {src : Source τ Val} (e : assign E w src luck W = some (W', true)) :
    Keeps (.of w) W W' := by
  unfold assign at e
  split at e
  · simp only [Option.bind_eq_bind, Option.bind_eq_some_iff] at e
    obtain ⟨o, -, e⟩ := e
    have hW := congrArg Prod.fst (Option.some.inj e)
    unfold assignConstexpr at hW
    split_ifs at hW
    all_goals
      subst hW
      exact fun _ _ => rfl
  · simp only [assignRuntime, Option.bind_eq_bind, Option.bind_eq_some_iff] at e
    obtain ⟨o, -, s, -, e⟩ := e
    obtain ⟨hW, -⟩ := Prod.mk.inj (Option.some.inj e)
    subst hW
    exact (keeps_set _ _).trans (keeps_leave _ src)

omit [DecidableEq τ] in
lemma keeps_remove : Keeps (.of w) W (W.remove w) := fun q hq => by
  simp [World.remove, hq]

omit [DecidableEq τ] in
lemma keeps_create (c : Constant Fn) :
    Keeps (.of w) W ((W.setConstant w c).setStorage (.of w) .empty) := fun q hq => by
  simp [World.setStorage, World.setConstant, hq]

omit [DecidableEq τ] in
lemma orRemove_threw {r : Option (World τ Val Fn × Bool)}
    (e : r.map (orRemove w) = some (W', true)) :
    ∃ W₁, r = some (W₁, true) ∧ W' = W₁.remove w := by
  obtain ⟨⟨W₁, threw⟩, hr, hW⟩ := Option.map_eq_some_iff.mp e
  cases threw with
  | true => exact ⟨W₁, hr, (Prod.mk.inj hW).1.symm⟩
  | false => cases hW

def assigned : Op τ Val → Option ℕ
  | .copyAssign w _ | .assignCallable w _ => some w
  | _ => none

def constructed : Op τ Val → Option ℕ
  | .construct w _ | .copyConstruct w _ => some w
  | _ => none

def handed : Op τ Val → Option ℕ
  | .construct _ src | .assignCallable _ src => src.moved
  | _ => none

lemma keeps_exec (e : exec E op luck W = some (W', true)) :
    ∃ w, (assigned op = some w ∨ constructed op = some w) ∧ Keeps (.of w) W W' := by
  cases op with
  | construct w src =>
    obtain ⟨W₁, e₁, rfl⟩ := orRemove_threw e
    exact ⟨w, .inr rfl, ((keeps_create _).trans (keeps_assign e₁)).trans keeps_remove⟩
  | copyConstruct w u =>
    simp only [exec, copyConstruct, Option.bind_eq_bind, Option.bind_eq_some_iff] at e
    obtain ⟨c, -, e⟩ := e
    split at e
    · simp at e
    · obtain ⟨W₁, e₁, rfl⟩ := orRemove_threw e
      exact ⟨w, .inr rfl, ((keeps_create _).trans (copyStorage_threw e₁).1).trans keeps_remove⟩
  | copyAssign w u =>
    simp only [exec, copyAssign] at e
    split at e
    · simp at e
    · simp only [Option.bind_eq_bind, Option.bind_eq_some_iff] at e
      obtain ⟨W₁, e₁, c, -, e⟩ := e
      split at e
      · simp at e
      · exact ⟨w, .inl rfl, (keeps_reset e₁).trans (copyStorage_threw e).1⟩
  | assignCallable w src =>
    simp only [exec, assignCallable, Option.bind_eq_bind, Option.bind_eq_some_iff] at e
    obtain ⟨W₁, e₁, e⟩ := e
    exact ⟨w, .inl rfl, (keeps_reset e₁).trans (keeps_assign e)⟩
  | _ => simp [exec] at e

lemma content_of_threw (h : StoreInv E W) (e : copyAssign E w u luck W = some (W', true)) :
    ∃ o, content W (.of u) = some o := by
  simp only [copyAssign] at e
  split at e
  · simp at e
  · next hwu =>
    simp only [Option.bind_eq_bind, Option.bind_eq_some_iff] at e
    obtain ⟨W₁, e₁, c, -, e⟩ := e
    split at e
    · simp at e
    · obtain ⟨-, s, hs, hvt⟩ := copyStorage_threw e
      have hs' : W.storages (.of u) = some s := by
        rw [← keeps_reset e₁ (.of u) (by simpa using Ne.symm hwu)]
        exact hs
      refine Option.ne_none_iff_exists'.mp fun hnone => hvt ?_
      obtain ⟨k, rfl⟩ := h.eq_empty hs' hnone
      exact vtablePtr_empty k

/-! ### After a throw -/

/-- The wrapper is as it was: its constant part, the words of its storage and its callable. -/
structure Unchanged (W W' : World τ Val Fn) (v : ℕ) : Prop where
  constant : W'.constants v = W.constants v
  storage : W'.storages (.of v) = W.storages (.of v)
  callable : content W' (.of v) = content W (.of v)

/-- The wrapper is as it was, but for the value of its callable. -/
structure LeftAs (left : Object τ Val → Val) (W W' : World τ Val Fn) (v : ℕ) : Prop where
  constant : W'.constants v = W.constants v
  storage : W'.storages (.of v) = W.storages (.of v)
  callable : content W' (.of v) = (content W (.of v)).map fun o => { o with val := left o }

variable (E) in
/-- The wrapper is empty, in both of its stores. -/
structure Emptied (W : World τ Val Fn) (w : ℕ) : Prop where
  hasValue : wrapperHasValue E W w = some false
  storage : ∃ s, W.storages (.of w) = some s ∧ s.isEmpty = true ∧ s.obj = none
  constant : ∃ c, W.constants w = some c ∧ c.active = false ∧ ∀ s ∈ E.sigs, c.slots s = none

omit [DecidableEq τ] in
lemma emptied_of_view (h : Whole E W) {c : Constant Fn} (hv : view W w = some (c, none))
    (hoff : c.active = false) (hslots : ∀ s ∈ E.sigs, c.slots s = none) : Emptied E W w := by
  obtain ⟨hc, hnone⟩ := view_eq_some hv
  obtain ⟨s, hs⟩ := h.storage (w := w) (by simp [Live, hc])
  obtain ⟨k, rfl⟩ := h.store.eq_empty hs hnone
  have hempty : hasValue E c.slots = false := by
    simpa [Lifecycle.hasValue] using hslots
  refine ⟨?_, ⟨_, hs, rfl, rfl⟩, c, hc, hoff, hslots⟩
  simp [wrapperHasValue, hc, hs, hoff, hempty]

omit [DecidableEq τ] in
lemma leftAs_of_view {left : Object τ Val → Val} {v : ℕ} (h : Whole E W) (h' : Whole E W')
    (hview : view W' v =
      (view W v).map fun p => (p.1, p.2.map fun o => { o with val := left o }))
    (hs : W'.storages (.of v) = W.storages (.of v)) : LeftAs left W W' v := by
  by_cases hv : Live W v
  · obtain ⟨c, o, hco⟩ := live_view hv
    obtain ⟨hc, ho⟩ := view_eq_some hco
    rw [hco, Option.map_some] at hview
    obtain ⟨hc', ho'⟩ := view_eq_some hview
    exact ⟨hc'.trans hc.symm, hs, by rw [ho', ho]⟩
  · rw [view_eq_none.mpr hv, Option.map_none] at hview
    have hv' : ¬ Live W' v := view_eq_none.mp hview
    refine ⟨?_, hs, by rw [h'.content_none hv', h.content_none hv, Option.map_none]⟩
    exact (not_not.mp hv').trans (not_not.mp hv).symm

omit [DecidableEq τ] in
lemma unchanged_of_view {v : ℕ} (h : Whole E W) (h' : Whole E W')
    (hview : view W' v = view W v) (hs : W'.storages (.of v) = W.storages (.of v)) :
    Unchanged W W' v := by
  have hleft : LeftAs Object.val W W' v := leftAs_of_view h h' (by simp [hview]) hs
  obtain ⟨hconstant, hstorage, hcallable⟩ := hleft
  exact ⟨hconstant, hstorage, by simpa using hcallable⟩

variable (E) in
/-- What a step that threw leaves behind. -/
structure AfterThrow (luck : Luck) (W W' : World τ Val Fn) (op : Op τ Val) (w : ℕ) : Prop where
  named : assigned op = some w ∨ constructed op = some w
  assigned : assigned op = some w → Emptied E W' w
  constructed : constructed op = some w → ¬ Live W' w
  others : ∀ v, v ≠ w → handed op ≠ some v → Unchanged W W' v
  source : ∀ u, handed op = some u → u ≠ w ∧ LeftAs (leftover E luck true) W W' u

/-- A throwing copy finds a callable in its source, whose constant part is then idle. -/
lemma emptied_of_copyAssign (h : Inv E W) (h' : Whole E W')
    (e : copyAssign E w u luck W = some (W', true))
    (hview : view W' w = (view W u).map fun p => (p.1, none)) : Emptied E W' w := by
  obtain ⟨o, ho⟩ := content_of_threw h.store e
  have hu : Live W u := by
    by_contra hdead
    rw [h.toWhole.content_none hdead] at ho
    cases ho
  obtain ⟨c, o', hco⟩ := live_view hu
  obtain ⟨-, ho'⟩ := view_eq_some hco
  obtain rfl : o' = some o := ho'.symm.trans ho
  have hcoherent := h.coherent u c _ hco
  have hoff : c.active = false := by
    by_contra hon
    cases hcoherent.alone (by simpa using hon)
  rw [hco] at hview
  exact emptied_of_view h' hview hoff (hcoherent.idle hoff)

lemma ne_of_copyAssign_threw (e : copyAssign E w u luck W = some (W', true)) : w ≠ u := by
  rintro rfl
  simp [copyAssign] at e

omit [DecidableEq τ] in
lemma not_live_of_view (hw : ¬ Live W w) (hview : view W' = view W) : ¬ Live W' w := by
  rw [← view_eq_none, hview]
  exact view_eq_none.mpr hw

omit [DecidableEq τ] in
lemma others_of_leave (h : Whole E W) (h' : Whole E W') (hkeeps : Keeps (.of w) W W')
    {left : Object τ Val → Val} {src : Source τ Val} (hsrc : ∀ r, src ≠ .target w r)
    (hview : ∀ v, v ≠ w → view W' v = leaveView left (view W) src v) :
    (∀ v, v ≠ w → src.moved ≠ some v → Unchanged W W' v) ∧
      ∀ u, src.moved = some u → u ≠ w ∧ LeftAs left W W' u := by
  refine ⟨fun v hv hne => ?_, fun u hu => ?_⟩
  · refine unchanged_of_view h h' ?_ (hkeeps _ (by simpa using hv))
    rw [hview v hv, leaveView_of_ne left hne]
  · have huw : u ≠ w := by
      rintro rfl
      exact moved_ne hsrc hu
    refine ⟨huw, leftAs_of_view h h' ?_ (hkeeps _ (by simpa using huw))⟩
    rw [hview u huw, leaveView_moved left hu]

/-- The wrapper the operation names is empty, or was not made, and the others are as they were, or
as the constructor left them. -/
lemma afterThrow_exec (h : Inv E W) (hs : (system E).step W ⟨op, luck, true⟩ W') :
    ∃ w, AfterThrow E luck W W' op w := by
  obtain ⟨h', -, hview⟩ := step_spec h.toWhole hs
  obtain ⟨hen, -, e⟩ := hs
  obtain ⟨w, hnamed, hkeeps⟩ := keeps_exec e
  have hothers : (∀ v, v ≠ w → view W' v = view W v) → ∀ v, v ≠ w → Unchanged W W' v :=
    fun hV v hv => unchanged_of_view h.toWhole h' (hV v hv) (hkeeps _ (by simpa using hv))
  cases op with
  | construct t src =>
    obtain rfl : t = w := by simpa [assigned, constructed] using hnamed
    have hsrc : ∀ r, src ≠ .target t r := by
      rintro r rfl
      exact hen.1 hen.2.2.1
    rw [viewStep, if_pos rfl] at hview
    obtain ⟨hrest, hsource⟩ := others_of_leave h.toWhole h' hkeeps hsrc fun v _ => congrFun hview v
    refine ⟨t, hnamed, (fun e => by cases e), fun _ => ?_, hrest, hsource⟩
    rw [← view_eq_none, hview, leaveView_of_ne _ (moved_ne hsrc), view_eq_none]
    exact hen.1
  | copyConstruct t u =>
    obtain rfl : t = w := by simpa [assigned, constructed] using hnamed
    exact ⟨t, hnamed, (fun e => by cases e), fun _ => not_live_of_view hen.2.1 hview,
      fun v hv _ => hothers (fun v _ => congrFun hview v) v hv, fun u e => by cases e⟩
  | copyAssign t u =>
    obtain rfl : t = w := by simpa [assigned, constructed] using hnamed
    rw [viewStep, if_neg (ne_of_copyAssign_threw e)] at hview
    refine ⟨t, hnamed, fun _ => ?_, (fun e => by cases e),
      fun v hv _ => hothers (fun v hv => ?_) v hv, fun u e => by cases e⟩
    · exact emptied_of_copyAssign h h' e (by rw [hview, Function.update_self, if_pos rfl])
    · rw [hview, Function.update_of_ne hv]
  | assignCallable t src =>
    obtain rfl : t = w := by simpa [assigned, constructed] using hnamed
    have hsrc : ∀ r, src ≠ .target t r := by
      rintro r rfl
      exact not_selfSourced h.toWhole hen e rfl
    rw [viewStep, if_pos rfl, leaveView_update _ hsrc] at hview
    obtain ⟨hrest, hsource⟩ := others_of_leave h.toWhole h' hkeeps hsrc fun v hv => by
      rw [hview, Function.update_of_ne hv]
    refine ⟨t, hnamed, fun _ => ?_, (fun e => by cases e), hrest, hsource⟩
    exact emptied_of_view h' (by rw [hview, Function.update_self]) rfl fun _ _ => rfl
  | _ => simp [assigned, constructed] at hnamed

/-- **Throwing constructions and assignments.** In every world a run reaches, a step that throws
leaves the wrapper it names empty, or not made, and all others as they were, but for the callable of
another wrapper that it was to move from; every operation that the program can run next is defined
and does to the wrappers what it does after any other step. A copy assignment of a wrapper to itself
changes nothing and does not throw. -/
theorem after_throw (h : Runs.Reachable (system E) W) :
    (∀ a W', (system E).step W a W' → a.threw = true →
      (∃ w, AfterThrow E a.luck W W' a.op w) ∧
      ∀ op luck, Enabled E W' op → FreeBlock W' luck.block op → ¬ SelfSourced op →
        ∃ W'' threw, exec E op luck W' = some (W'', threw) ∧
          view W'' = viewStep E W'.phase luck threw (view W') op) ∧
    ∀ w luck, exec E (.copyAssign w w) luck W = some (W, false) := by
  have hinv := inv_reachable h
  refine ⟨fun a W' hs ht => ⟨?_, fun op luck hen hblock hself => ?_⟩, fun w luck => ?_⟩
  · obtain ⟨op, luck, threw⟩ := a
    obtain rfl : threw = true := ht
    exact afterThrow_exec hinv hs
  · obtain ⟨W'', threw, e, -, -, hv⟩ := exec_spec (inv_step hinv hs).toWhole hen hblock hself
    exact ⟨W'', threw, e, hv⟩
  · simp [exec, copyAssign]

/-- A copy constructor throws over a callable on the heap, and `operator new` over one in the
buffer. -/
theorem after_throw_sample :
    (∃ W', (system (sampleEnv .copyable)).step (sampleWorld 3)
        ⟨.copyAssign 0 1, ⟨false, true, 9⟩, true⟩ W' ∧
      ∃ w, AfterThrow (sampleEnv .copyable) ⟨false, true, 9⟩ (sampleWorld 3) W' (.copyAssign 0 1)
        w) ∧
    ∃ W', (system (sampleEnv .copyable)).step (sampleWorld 3)
        ⟨.copyAssign 1 0, ⟨true, false, 9⟩, true⟩ W' ∧
      ∃ w, AfterThrow (sampleEnv .copyable) ⟨true, false, 9⟩ (sampleWorld 3) W' (.copyAssign 1 0)
        w := by
  have hlive0 : Live (sampleWorld 3) 0 := Option.some_ne_none _
  have hlive1 : Live (sampleWorld 3) 1 := Option.some_ne_none _
  have hthrow := (after_throw sampleWorld_made).1
  have hsmall : ∃ W', (system (sampleEnv .copyable)).step (sampleWorld 3)
      ⟨.copyAssign 0 1, ⟨false, true, 9⟩, true⟩ W' :=
    ⟨_, ⟨rfl, hlive0, hlive1⟩, .inl rfl, rfl⟩
  have hheap : ∃ W', (system (sampleEnv .copyable)).step (sampleWorld 3)
      ⟨.copyAssign 1 0, ⟨true, false, 9⟩, true⟩ W' :=
    ⟨_, ⟨rfl, hlive1, hlive0⟩, .inl rfl, rfl⟩
  obtain ⟨W', hs⟩ := hsmall
  obtain ⟨W'', hs'⟩ := hheap
  exact ⟨⟨W', hs, (hthrow _ W' hs rfl).1⟩, W'', hs', (hthrow _ W'' hs' rfl).1⟩

/-- The move constructor of the table throws midway, and the wrapper that lent it has lost the
entries. -/
theorem source_not_kept :
    ¬ ∀ W W' a, Runs.Reachable (system (sampleEnv .copyable)) W →
      (system (sampleEnv .copyable)).step W a W' → a.threw = true →
      ∃ w, (assigned a.op = some w ∨ constructed a.op = some w) ∧
        ∀ v, v ≠ w → Unchanged W W' v := by
  intro h
  have hs : ∃ W', (system (sampleEnv .copyable)).step (sampleWorld 3)
      ⟨.assignCallable 1 (.target 0 true), ⟨false, true, 9⟩, true⟩ W' ∧
        content W' (.of 0) = some ⟨.table, 0⟩ :=
    ⟨_, ⟨⟨Option.some_ne_none _, rfl, Option.some_ne_none _, _, rfl, nofun⟩, .inl rfl, rfl⟩, rfl⟩
  obtain ⟨W', hs, hleft⟩ := hs
  obtain ⟨w, hw, hothers⟩ := h _ W' _ sampleWorld_made hs rfl
  obtain rfl : 1 = w := by simpa [assigned, constructed] using hw
  have hsame : content W' (.of 0) = some ⟨.table, 7⟩ := (hothers 0 (by decide)).callable
  rw [hleft] at hsame
  exact absurd hsame (by decide)

end FunctionWrapper.ThrowingSteps
