import FunctionWrapper.ValueSemantics

/-!
Emptiness, in constant evaluation and at run time.

A wrapper made in constant evaluation is asked at run time too. The two phases read different
fields: the slots of the pointer store, or its active flag and the vtable word. A failed call is
reported as empty only by the second path, for the first does not know of emptiness.
-/

namespace FunctionWrapper.EvaluationPhases

open FunctionWrapper.Types FunctionWrapper.Traits FunctionWrapper.Signatures
open FunctionWrapper.Callables FunctionWrapper.Storage FunctionWrapper.Lifecycle
open FunctionWrapper.StorageForms FunctionWrapper.WrapperSpec FunctionWrapper.RunInvariant
open FunctionWrapper.CallAcceptance FunctionWrapper.Dispatch FunctionWrapper.DispatchSpec
open FunctionWrapper.ValueSemantics

variable {τ Val Fn Raw Arg Ret Exc : Type} [DecidableEq τ]
variable (P : Program) (C : Calls τ Val Fn Raw Arg Ret Exc) (E : Env τ Val Fn)
variable (W : World τ Val Fn) (w : ℕ)

/-- The world of constant evaluation as run time finds it. -/
def atRunTime : World τ Val Fn := { W with phase := .run }

/-- A call of a wrapper without a value fails as empty, unless its arguments throw first, and no
other call does. -/
structure ReportsEmptiness : Prop where
  full : wrapperHasValue E W w = some true → ∀ mode cat s args,
    acceptedSignature P .wrapper mode E.sigs (C.types args) = some s →
      dispatch C E W w mode cat s args ≠ some (.failed .empty)
  empty : wrapperHasValue E W w = some false → ∀ mode cat s args,
    acceptedSignature P .wrapper mode E.sigs (C.types args) = some s →
      dispatch C E W w mode cat s args = some (.failed .empty) ∨
        ∃ e, dispatch C E W w mode cat s args = some (.propagated e)

/-- The phases agree on emptiness, and calls report it in each of them. -/
structure EmptinessCoherent : Prop where
  same : wrapperHasValue E W w = wrapperHasValue E (atRunTime W) w
  constant : ReportsEmptiness P C E W w
  run : ReportsEmptiness P C E (atRunTime W) w

variable {P C E W w} {a : Option (Callable τ Val)} {A : Values τ Val} {ph : Phase}

omit [DecidableEq τ] in
lemma inv_atRunTime (h : Inv E W) : Inv E (atRunTime W) where
  store := ⟨h.store.sound, h.store.owned, h.store.holds⟩
  tmp := h.tmp
  made := h.made
  still hp := by cases hp
  coherent := h.coherent

lemma valueOutcome_ne_empty (c : Callable τ Val) (mode : Mode) (cat : Category) (s : Sig)
    (args : Raw) : valueOutcome E C (some c) mode cat s args ≠ .failed .empty := by
  cases c with
  | constant o => exact invokeSlot_ne_empty C _ s args
  | stored o =>
    simp only [valueOutcome]
    cases convert C mode s args with
    | error e => simp
    | ok b =>
      dsimp only
      split
      · exact outcome_ne_failed s _ _
      · simp

lemma valueOutcome_none (mode : Mode) (cat : Category) (s : Sig) (args : Raw) :
    valueOutcome E C none mode cat s args = .failed .empty ∨
      ∃ e, valueOutcome E C none mode cat s args = .propagated e := by
  simp only [valueOutcome]
  cases convert C mode s args with
  | error e => exact .inr ⟨e, rfl⟩
  | ok b => exact .inl rfl

lemma reportsEmptiness_of_answers (h : Answers E W w a C) : ReportsEmptiness P C E W w := by
  refine ⟨fun hv mode cat s args hacc => ?_, fun hv mode cat s args hacc => ?_⟩
  · rw [h.hasValue, Option.some.injEq, Option.isSome_iff_exists] at hv
    obtain ⟨c, rfl⟩ := hv
    rw [h.calls mode cat s args (accepted_mem hacc), ne_eq, Option.some.injEq]
    exact valueOutcome_ne_empty c mode cat s args
  · rw [h.hasValue, Option.some.injEq, Option.isSome_eq_false_iff, Option.isNone_iff_eq_none] at hv
    subst hv
    rw [h.calls mode cat s args (accepted_mem hacc)]
    simpa using valueOutcome_none mode cat s args

/-! ### In constant evaluation -/

variable (E) in
/-- The value is a callable with a function pointer for a declared signature. -/
def HasPointer (a : Option (Callable τ Val)) : Prop :=
  ∃ o s, a = some (.constant o) ∧ s ∈ E.sigs ∧ pointerOf E o s ≠ none

lemma hasValue_iff {c : Constant Fn} (hr : Represents E (c, none) a) (hc : Coherent E c none) :
    hasValue E c.slots = true ↔ HasPointer E a := by
  simp only [hasValue, List.any_eq_true, Option.isSome_iff_ne_none]
  cases hr with
  | empty _ hoff =>
    constructor
    · rintro ⟨s, hs, hne⟩
      exact absurd (hc.idle hoff s hs) hne
    · rintro ⟨o, s, ha, -⟩
      cases ha
  | constant _ _ o hslots =>
    constructor
    · rintro ⟨s, hs, hne⟩
      exact ⟨o, s, rfl, hs, hslots s hs ▸ hne⟩
    · rintro ⟨o', s, ha, hs, hne⟩
      obtain rfl : o = o' := by simpa using ha
      exact ⟨s, hs, (hslots s hs).symm ▸ hne⟩

omit [DecidableEq τ] in
lemma slot_eq_none {slots : Slots Fn} (h : hasValue E slots = false) {s : Sig} (hs : s ∈ E.sigs) :
    slots s = none := by
  simp only [hasValue, List.any_eq_false, Bool.not_eq_true, Option.isSome_eq_false_iff,
    Option.isNone_iff_eq_none] at h
  exact h s hs

lemma constant_reachable (h : Runs.Reachable (followed E) (W, (ph, A)))
    (hconst : W.phase = .constant) (ha : A w = some a) :
    ∃ c, W.constants w = some c ∧ wrapperHasValue E W w = some (hasValue E c.slots) ∧
      (hasValue E c.slots = true ↔ HasPointer E a) ∧ Answers E (atRunTime W) w a C := by
  have hinv := (relates_reachable h).1
  obtain ⟨⟨c, o⟩, hp, hr⟩ := represents_reachable h ha
  obtain ⟨hc, hcontent⟩ := view_eq_some hp
  obtain rfl : none = o := (hinv.still hconst (.of w)).symm.trans hcontent
  obtain ⟨t, ht⟩ : ∃ t, W.storages (.of w) = some t :=
    hinv.toWhole.storage (by simp [Live, hc])
  exact ⟨c, hc, by simp [wrapperHasValue, hc, ht, hconst],
    hasValue_iff hr (hinv.coherent w c none hp),
    answers_of_represents C (inv_atRunTime hinv) rfl hp hr⟩

/-- **Emptiness is coherent for exactly** the values with a live function pointer, and for empty
wrappers that take no call at all. -/
theorem emptinessCoherent_iff (h : Runs.Reachable (followed E) (W, (ph, A)))
    (hconst : W.phase = .constant) (ha : A w = some a) :
    EmptinessCoherent P C E W w ↔ HasPointer E a ∨
      (a = none ∧ ∀ mode args, acceptedSignature P .wrapper mode E.sigs (C.types args) = none) := by
  have hinv := (relates_reachable h).1
  obtain ⟨c, hc, hv, hpointer, answers⟩ := constant_reachable (C := C) h hconst ha
  have hrun : ReportsEmptiness P C E (atRunTime W) w := reportsEmptiness_of_answers answers
  cases hb : hasValue E c.slots with
  | true =>
    have hlive := hpointer.mp hb
    refine iff_of_true ⟨?_, ⟨fun _ mode cat s args _ => ?_, fun hv' => ?_⟩, hrun⟩ (.inl hlive)
    · obtain ⟨o, s, rfl, -⟩ := hlive
      rw [hv, hb, answers.hasValue]
      rfl
    · rw [dispatch_slots C hinv hc (.inl hconst), ne_eq, Option.some.injEq]
      exact invokeSlot_ne_empty C _ s args
    · rw [hv, hb] at hv'
      cases hv'
  | false =>
    have hdead : ¬ HasPointer E a := fun hl => by simp [hpointer.mpr hl] at hb
    rw [or_iff_right hdead]
    constructor
    · intro hcoh
      have hsame := hcoh.same
      rw [hv, hb, answers.hasValue, Option.some.injEq, eq_comm, Option.isSome_eq_false_iff,
        Option.isNone_iff_eq_none] at hsame
      refine ⟨hsame, fun mode args => Option.eq_none_iff_forall_ne_some.mpr fun s hacc => ?_⟩
      -- a call goes to a null slot, and fails as a mismatch
      have hcall := hcoh.constant.empty (hb ▸ hv) mode .l s args hacc
      rw [dispatch_slots C hinv hc (.inl hconst), invokeSlot,
        slot_eq_none hb (accepted_mem hacc)] at hcall
      simp at hcall
    · rintro ⟨rfl, hnone⟩
      refine ⟨by rw [hv, hb, answers.hasValue]; rfl, ⟨fun _ mode cat s args hacc => ?_,
        fun _ mode cat s args hacc => ?_⟩, hrun⟩
      · rw [hnone] at hacc
        cases hacc
      · rw [hnone] at hacc
        cases hacc

theorem emptinessCoherent_pointer :
    EmptinessCoherent arithmeticOnly sampleCalls (sampleEnv .copyable) (constantWorld 1) 0 ↔
      HasPointer (sampleEnv .copyable) (some (.constant ⟨.pointer, 3⟩)) ∨
        (some (Callable.constant (⟨.pointer, 3⟩ : Object Sample ℕ)) = none ∧
          ∀ mode (args : ℕ), acceptedSignature arithmeticOnly .wrapper mode
            (sampleEnv .copyable).sigs (sampleCalls.types args) = none) :=
  emptinessCoherent_iff constantWorld_made rfl rfl

def nullWorld (n : ℕ) : World Sample ℕ ℕ :=
  play (sampleEnv .copyable) ([.construct 0 (.object ⟨.pointer, 0⟩)].take n)

lemma nullWorld_made : Runs.Reachable (followed (sampleEnv .copyable)) (nullWorld 1,
    (.constant, Function.update (fun _ => none) 0 (some (some (.constant ⟨.pointer, 0⟩))))) := by
  have h0 : Runs.Reachable (followed (sampleEnv .copyable))
      (nullWorld 0, (.constant, fun _ => none)) := .init ⟨rfl, rfl⟩
  exact followed_step h0 (.construct 0 (.object ⟨.pointer, 0⟩)) 0
    ⟨not_not_intro rfl, rfl, fun _ => .inr rfl⟩ rfl rfl id

/-- The wrapper is empty in constant evaluation and has a value at run time. -/
theorem phases_disagree :
    ¬ ∀ W ph A w a, Runs.Reachable (followed (sampleEnv .copyable)) (W, (ph, A)) →
      W.phase = .constant → A w = some a →
      EmptinessCoherent arithmeticOnly sampleCalls (sampleEnv .copyable) W w := by
  intro h
  have hsame := (h _ _ _ 0 _ nullWorld_made rfl rfl).same
  exact absurd hsame (by decide)

end FunctionWrapper.EvaluationPhases
