import FunctionWrapper.InvokedTargets

/-!
Calls through null function pointers.

In constant evaluation a null pointer leaves its slot without a pointer, and a call finds that: it
reports a mismatch of signatures, since a wrapper with such a slot is not empty. At run time the
storage keeps any function pointer as an object, and a call asks only whether there is an object.
-/

namespace FunctionWrapper.NullPointers

open FunctionWrapper.Types FunctionWrapper.Traits FunctionWrapper.Signatures
open FunctionWrapper.Callables FunctionWrapper.Storage FunctionWrapper.Lifecycle
open FunctionWrapper.CallAcceptance FunctionWrapper.StorageForms FunctionWrapper.WrapperSpec
open FunctionWrapper.RunInvariant FunctionWrapper.Dispatch FunctionWrapper.InterfaceBase
open FunctionWrapper.InvokedTargets FunctionWrapper.DispatchSpec
open OwnedCells

variable {τ Val Fn Raw Arg Ret Exc : Type} [DecidableEq τ]
variable (P : Program) {E : Env τ Val Fn} (F : FunctionPointers E)
variable (C : Calls τ Val Fn Raw Arg Ret Exc)

/-- The target is a null function pointer. A pointer that was taken from a slot never is. -/
def NullTarget : Invoked τ Val Fn → Prop
  | .object o => F.Null o
  | .function _ _ => False

/-- The conversion of the arguments throws, in the caller or in the function of the slot. -/
def ConversionThrows (mode : Mode) (s : Sig) (args : Raw) : Prop :=
  (∃ e, convert C mode s args = .error e) ∨ ∃ e, C.cast s args = .error e

/-- Every call runs a target that is not null, or reports its failure, unless the conversion of the
arguments throws; and it runs no other target. -/
def NullSafe (W : World τ Val Fn) : Prop :=
  ∀ w, Live W w → ∀ mode cat s args,
    acceptedSignature P .wrapper mode E.sigs (C.types args) = some s →
      ((∃ t, invoked E C W w mode cat s args = some t ∧ ¬ NullTarget F t) ∨
        (∃ f, dispatch C E W w mode cat s args = some (.failed f)) ∨
        ConversionThrows C mode s args) ∧
      ∀ t, invoked E C W w mode cat s args = some t → ¬ NullTarget F t

/-- At run time no null function pointer is given to a wrapper, and no stored one is overwritten with
null. -/
def GivesNoNull (W : World τ Val Fn) (a : Label τ Val) : Prop :=
  match a.op with
  | .construct _ (.object o) | .assignCallable _ (.object o) => W.phase = .run → ¬ F.Null o
  | .targetRuns w v => ∀ o, content W (.of w) = some o → ¬ F.Null { o with val := v }
  | _ => True

/-- A wrapper that stores no null function pointer. -/
def StoresNoNull (_ : Constant Fn) (o : Option (Object τ Val)) : Prop := ∀ x ∈ o, ¬ F.Null x

variable {P F C} {W : World τ Val Fn}

omit [DecidableEq τ] in
lemma null_leftover (luck : Luck) (threw : Bool) (o : Object τ Val) :
    F.Null { o with val := leftover E luck threw o } ↔ F.Null o := by
  refine and_congr_right fun hp => ?_
  simp only [FunctionPointers.points, F.leftover luck threw o hp]

omit [DecidableEq τ] in
lemma not_null_of_source {V : View τ Val Fn} (h : EveryWrapper (StoresNoNull F) V)
    {src : Source τ Val} (hgives : ∀ o, src = .object o → ¬ F.Null o) {o : Object τ Val}
    (ho : sourceValue V src = some o) : ¬ F.Null o := by
  cases src with
  | object o' =>
    obtain rfl : o' = o := Option.some.inj ho
    exact hgives o' rfl
  | target u r =>
    obtain ⟨⟨c, o'⟩, hV, ho'⟩ := Option.bind_eq_some_iff.mp ho
    exact h u c o' hV o ho'

lemma storesNoNull_viewStep {a : Label τ Val} (hgives : GivesNoNull F W a)
    (h : EveryWrapper (StoresNoNull F) (view W)) :
    EveryWrapper (StoresNoNull F) (viewStep E W.phase a.luck a.threw (view W) a.op) := by
  have hnone : ∀ c : Constant Fn, StoresNoNull F c (none : Option (Object τ Val)) :=
    fun c x hx => by cases hx
  have hsome : ∀ (c : Constant Fn) o, ¬ F.Null o → StoresNoNull F c (some o) :=
    fun c o ho x hx => by
      obtain rfl : o = x := Option.some.inj hx
      exact ho
  refine everyWrapper_viewStep (hnone _) (fun c o _ => hnone c) (fun threw c o ho => ?_)
    (fun w src o hop ho => ⟨fun _ => hnone _, fun hp => hsome _ o ?_⟩)
    (fun w v c o hop hV => hsome c _ ?_) h
  · exact hsome c _ ((not_congr (null_leftover a.luck threw o)).mpr (ho o rfl))
  · have hrun : W.phase = .run := by
      cases hph : W.phase with
      | constant => exact absurd hph hp
      | run => rfl
    refine not_null_of_source h (fun o' e => ?_) ho
    subst e
    rcases hop with hop | hop
    all_goals
      rw [GivesNoNull, hop] at hgives
      exact hgives hrun
  · rw [GivesNoNull, hop] at hgives
    exact hgives o (view_eq_some hV).2

theorem storesNoNull_reachable (h : Runs.Reachable ((system E).restrict (GivesNoNull F)) W) :
    Inv E W ∧ EveryWrapper (StoresNoNull F) (view W) := by
  refine Runs.Reachable.invariant (I := fun W => Inv E W ∧ EveryWrapper (StoresNoNull F) (view W)) h
    (fun W h0 => ?_) fun W a W' hi hs => ?_
  · rw [h0]
    exact ⟨inv_init, fun w c o hV => by cases hV⟩
  · obtain ⟨hinv, hnull⟩ := hi
    obtain ⟨hstep, hgives⟩ := hs
    obtain ⟨-, -, hview⟩ := step_spec hinv.toWhole hstep
    exact ⟨inv_step hinv hstep, hview ▸ storesNoNull_viewStep hgives hnull⟩

/-! ### Calls -/

variable {w : ℕ} {mode : Mode} {cat : Category} {s : Sig} {args : Raw}

lemma invoked_or_failed (h : Inv E W) (hw : Live W w) :
    (∃ t, invoked E C W w mode cat s args = some t) ∨
      (∃ f, dispatch C E W w mode cat s args = some (.failed f)) ∨
      ConversionThrows C mode s args := by
  obtain ⟨c, hc⟩ := Option.ne_none_iff_exists'.mp hw
  by_cases huse : W.phase = .constant ∨ c.active = true
  · rw [dispatch_slots C h hc huse, invokeSlot]
    rcases hslot : c.slots s with _ | pointer
    · exact .inr (.inl ⟨.mismatch, rfl⟩)
    · cases hcast : C.cast s args with
      | error e => exact .inr (.inr (.inr ⟨e, hcast⟩))
      | ok a => exact .inl ⟨_, (invoked_slots_iff h hc huse).mpr ⟨pointer, a, hslot, hcast, rfl⟩⟩
  · obtain ⟨hrun, hoff⟩ := run_of_not_slots huse
    rw [dispatch_content C h hc hrun hoff]
    cases hconvert : convert C mode s args with
    | error e => exact .inr (.inr (.inl ⟨e, hconvert⟩))
    | ok a =>
      rcases ho : content W (.of w) with _ | o
      · exact .inr (.inl ⟨.empty, rfl⟩)
      · cases hx : E.exactInvocable o.type cat s with
        | false => exact .inr (.inl ⟨.mismatch, by simp [contentOutcome, hx]⟩)
        | true =>
          exact .inl ⟨_, (invoked_content_iff h hc hrun hoff).mpr ⟨o, a, ho, hconvert, hx, rfl⟩⟩

lemma not_nullTarget (h : Inv E W) (hnull : EveryWrapper (StoresNoNull F) (view W)) (hw : Live W w)
    {t : Invoked τ Val Fn} (ht : invoked E C W w mode cat s args = some t) :
    ¬ NullTarget F t := by
  obtain ⟨c, hc⟩ := Option.ne_none_iff_exists'.mp hw
  by_cases huse : W.phase = .constant ∨ c.active = true
  · obtain ⟨pointer, a, -, -, rfl⟩ := (invoked_slots_iff h hc huse).mp ht
    exact not_false
  · obtain ⟨hrun, hoff⟩ := run_of_not_slots huse
    obtain ⟨o, a, ho, -, -, rfl⟩ := (invoked_content_iff h hc hrun hoff).mp ht
    exact hnull w c _ (view_of_live hc) o ho

/-- **No call goes through a null function pointer**, in every run that gives none to a wrapper at
run time. -/
theorem no_null_calls (h : Runs.Reachable ((system E).restrict (GivesNoNull F)) W) :
    NullSafe P F C W := by
  obtain ⟨hinv, hnull⟩ := storesNoNull_reachable h
  intro w hw mode cat s args _
  refine ⟨?_, fun t ht => not_nullTarget hinv hnull hw ht⟩
  rcases invoked_or_failed (C := C) hinv hw with ⟨t, ht⟩ | hrest
  · exact .inl ⟨t, ht, not_nullTarget hinv hnull hw ht⟩
  · exact .inr hrest

/-- A stored null function pointer is invoked by every call that it can be called by. -/
theorem null_called (h : Runs.Reachable (system E) W) (hrun : W.phase = .run) (hw : Live W w)
    {o : Object τ Val} (ho : content W (.of w) = some o) (hnull : F.Null o) {a : Arg}
    (ha : convert C mode s args = .ok a) (hx : E.exactInvocable o.type cat s = true) :
    ∃ t, invoked E C W w mode cat s args = some t ∧ NullTarget F t := by
  have hinv := inv_reachable h
  obtain ⟨c, hc⟩ := Option.ne_none_iff_exists'.mp hw
  have hoff : c.active = false := by
    by_contra hon
    have hnone := (hinv.coherent w c _ (view_of_live hc)).alone (by simpa using hon)
    cases ho.symm.trans hnone
  exact ⟨.object o, (invoked_content_iff hinv hc hrun hoff).mpr ⟨o, a, ho, ha, hx, rfl⟩, hnull⟩

def pointerWorld (v : ℕ) : World Sample ℕ ℕ :=
  play (sampleEnv .copyable) [.start, .construct 0 (.object ⟨.pointer, v⟩)]

lemma pointerWorld_step (v : ℕ) : (system (sampleEnv .copyable)).step
    (play (sampleEnv .copyable) [.start])
    ⟨.construct 0 (.object ⟨.pointer, v⟩), ⟨false, false, 1⟩, false⟩ (pointerWorld v) :=
  ⟨⟨not_not_intro rfl, rfl, fun e => by cases e⟩, rfl, rfl⟩

theorem no_null_calls_sample :
    NullSafe arithmeticOnly (samplePointers .copyable) sampleCalls (pointerWorld 3) := by
  refine no_null_calls (.step (.step (.init rfl) (a := ⟨.start, ⟨false, false, 0⟩, false⟩)
    ⟨⟨rfl, rfl, rfl⟩, trivial⟩) ⟨pointerWorld_step 3, fun _ hnull => ?_⟩)
  exact absurd hnull.2 (by decide)

theorem null_invoked :
    ¬ ∀ W, Runs.Reachable (system (sampleEnv .copyable)) W →
      NullSafe arithmeticOnly (samplePointers .copyable) sampleCalls W := by
  intro h
  have hsafe := h _ ((started_reachable _).step (pointerWorld_step 0)) 0 (Option.some_ne_none _)
    .call .l intToInt 4 (by decide)
  exact hsafe.2 (.object ⟨.pointer, 0⟩) rfl ⟨rfl, rfl⟩

end FunctionWrapper.NullPointers
