import FunctionWrapper.Introspection

/-!
What `target_type`, `target` and `target_signature` tell, beside `has_value` and the calls.

A wrapper that was initialized in constant evaluation has a value, but nothing in the storage that
`target_type` looks at.
-/

namespace FunctionWrapper.TargetIntrospection

open FunctionWrapper.Types FunctionWrapper.Traits FunctionWrapper.Signatures
open FunctionWrapper.Callables FunctionWrapper.Storage FunctionWrapper.Lifecycle
open FunctionWrapper.CallAcceptance FunctionWrapper.StorageForms FunctionWrapper.WrapperSpec
open FunctionWrapper.RunInvariant FunctionWrapper.Dispatch FunctionWrapper.ValueSemantics
open FunctionWrapper.InterfaceBase FunctionWrapper.InvokedTargets FunctionWrapper.Introspection
open FunctionWrapper.DispatchSpec
open OwnedCells

variable {τ Val Fn Raw Arg Ret Exc : Type} [DecidableEq τ]
variable (P : Program) {E : Env τ Val Fn} (F : FunctionPointers E)
variable (C : Calls τ Val Fn Raw Arg Ret Exc) (W : World τ Val Fn) (w : ℕ)

/-- The pointer `x` is what `target<T>` should return: it is null unless the stored callable has the
type, and points to the copy that belongs to this wrapper and to no other. -/
structure TargetFinds (T : τ) (x : Option Site) : Prop where
  found : x ≠ none ↔ ∃ o, content W (.of w) = some o ∧ o.type = T
  own : ∀ k, x = some k → W.mem.get k = content W (.of w) ∧ ∀ p, owner W p = some k ↔ p = .of w

/-- Every call that goes to the signature invokes the function of the pointer, unless the conversion
of its arguments throws. -/
def Invokes (s : Sig) (pointer : Fn) : Prop :=
  ∀ mode cat args, acceptedSignature P .wrapper mode E.sigs (C.types args) = some s →
    (∀ f, dispatch C E W w mode cat s args ≠ some (.failed f)) ∧
      ∀ t, invoked E C W w mode cat s args = some t → F.reached t = some pointer

/-- What a wrapper tells about its target agrees with `has_value`, with the stored callable and with
the calls. -/
structure TargetsAgree : Prop where
  type : targetType E W w = some none ↔ wrapperHasValue E W w = some false
  target : ∀ T, ∃ x, Dispatch.target E W w T = some x ∧ TargetFinds W w T x
  signature : ∀ s, ∃ x, targetSignature F W w s = some x ∧
    ∀ pointer, x = some pointer → Invokes P F C W w s pointer

variable {P F C W w} {c : Constant Fn}

lemma targetFinds_of_inv (h : Inv E W) (T : τ) : TargetFinds W w T
    ((content W (.of w)).bind fun o => if o.type = T then owner W (.of w) else none) := by
  rcases ho : content W (.of w) with _ | o
  · exact ⟨by simp [ho], fun k e => by cases e⟩
  · obtain ⟨k, hk, hget⟩ := Option.bind_eq_some_iff.mp ho
    by_cases hT : o.type = T
    · refine ⟨by simp [ho, hk, hT], fun l e => ?_⟩
      obtain rfl : k = l := by simpa [hT, hk] using e
      refine ⟨hget.trans ho.symm, fun p => ⟨fun hp => ?_, fun hp => hp ▸ hk⟩⟩
      by_contra hne
      exact h.store.other_cell hk hne hp
    · exact ⟨by simp [ho, hT], fun l e => by simp [hT] at e⟩

lemma target_answers (h : Inv E W) (hw : Live W w) (T : τ) :
    ∃ x, Dispatch.target E W w T = some x ∧ TargetFinds W w T x :=
  ⟨_, target_eq h hw T, targetFinds_of_inv h T⟩

omit [DecidableEq τ] in
lemma type_agrees_iff (h : Inv E W) (hc : W.constants w = some c) (hrun : W.phase = .run) :
    (targetType E W w = some none ↔ wrapperHasValue E W w = some false) ↔ c.active = false := by
  rw [targetType_eq h (by simp [Live, hc]), wrapperHasValue_eq h hc hrun]
  cases hon : c.active with
  | true =>
    have hnone : content W (.of w) = none := (h.coherent w c _ (view_of_live hc)).alone hon
    simp [hnone]
  | false => rcases content W (.of w) with _ | o <;> simp

/-- A stored function pointer of the type of the signature is what the calls invoke, where it can be
called so. -/
lemma invokes_iff (h : Inv E W) (hc : W.constants w = some c) (hrun : W.phase = .run)
    (hoff : c.active = false) {o : Object τ Val} (ho : content W (.of w) = some o) {s : Sig}
    {pointer : Fn} (hp : F.points o = some pointer) : Invokes P F C W w s pointer ↔
      ∀ mode cat args a, acceptedSignature P .wrapper mode E.sigs (C.types args) = some s →
        convert C mode s args = .ok a → E.exactInvocable o.type cat s = true := by
  constructor
  · intro hall mode cat args a hacc ha
    by_contra hx
    refine (hall mode cat args hacc).1 .mismatch ?_
    rw [dispatch_content C h hc hrun hoff, ha, ho]
    simp [contentOutcome, hx]
  · intro hall mode cat args hacc
    refine ⟨fun f e => ?_, fun t ht => ?_⟩
    · rw [dispatch_content C h hc hrun hoff, ho] at e
      cases ha : convert C mode s args with
      | error x => simp [ha] at e
      | ok a =>
        simp only [ha, contentOutcome, hall mode cat args a hacc ha, if_true] at e
        exact outcome_ne_failed s _ f (Option.some.inj e)
    · obtain ⟨o', a, ho', -, -, rfl⟩ := (invoked_content_iff h hc hrun hoff).mp ht
      obtain rfl : o = o' := Option.some.inj (ho.symm.trans ho')
      exact hp

/-- **The members about the target agree with `has_value` and with the calls, exactly when** the
wrapper is not active on its constant store, and a stored function pointer of the type of a declared
signature can be called exactly so in every category in which a call goes to the signature. -/
theorem targetsAgree_iff (h : Runs.Reachable (system E) W) (hrun : W.phase = .run)
    (hc : W.constants w = some c) : TargetsAgree P F C W w ↔
      c.active = false ∧ ∀ o s, content W (.of w) = some o → s ∈ E.sigs →
        o.type = F.signaturePointer s → F.points o ≠ none →
        ∀ mode cat args a, acceptedSignature P .wrapper mode E.sigs (C.types args) = some s →
          convert C mode s args = .ok a → E.exactInvocable o.type cat s = true := by
  have hinv := inv_reachable h
  have hw : Live W w := by simp [Live, hc]
  constructor
  · intro hagree
    have hoff := (type_agrees_iff hinv hc hrun).mp hagree.type
    refine ⟨hoff, fun o s ho hs hT hne => ?_⟩
    obtain ⟨pointer, hp⟩ := Option.ne_none_iff_exists'.mp hne
    obtain ⟨x, hx, hinvokes⟩ := hagree.signature s
    rw [targetSignature_content F hinv hc hrun hoff, ho] at hx
    have hxp : x = some pointer := by simpa [hs, hT, hp, eq_comm] using hx
    exact (invokes_iff hinv hc hrun hoff ho hp).mp (hinvokes pointer hxp)
  · rintro ⟨hoff, hall⟩
    refine ⟨(type_agrees_iff hinv hc hrun).mpr hoff, target_answers hinv hw, fun s => ?_⟩
    refine ⟨_, targetSignature_content F hinv hc hrun hoff s, fun pointer e => ?_⟩
    obtain ⟨o, ho, e⟩ := Option.bind_eq_some_iff.mp e
    split at e
    · next hs =>
      refine (invokes_iff hinv hc hrun hoff ho e).mpr (hall o s ho hs.1 hs.2 ?_)
      exact e ▸ Option.some_ne_none pointer
    · cases e

/-! ### Two wrappers -/

theorem targetsAgree_iff_sample :
    TargetsAgree arithmeticOnly (samplePointers .copyable) sampleCalls (sampleWorld 4) 0 ↔
      (Constant.inactive : Constant ℕ).active = false ∧
        ∀ o s, content (sampleWorld 4) (.of 0) = some o → s ∈ (sampleEnv .copyable).sigs →
          o.type = (samplePointers .copyable).signaturePointer s →
          (samplePointers .copyable).points o ≠ none →
          ∀ mode cat args a, acceptedSignature arithmeticOnly .wrapper mode
              (sampleEnv .copyable).sigs (sampleCalls.types args) = some s →
            convert sampleCalls mode s args = .ok a →
            (sampleEnv .copyable).exactInvocable o.type cat s = true :=
  targetsAgree_iff sampleWorld_reachable rfl rfl

/-- A wrapper of constant evaluation has a value, and its target has the type `void`. -/
theorem targets_disagree :
    ¬ ∀ W w, Runs.Reachable (system (sampleEnv .copyable)) W → W.phase = .run → Live W w →
      TargetsAgree arithmeticOnly (samplePointers .copyable) sampleCalls W w := by
  intro h
  have htype := (h (constantWorld 2) 0 constantWorld_followed.run.free rfl
    (Option.some_ne_none _)).type
  exact absurd htype (by decide)

end FunctionWrapper.TargetIntrospection
