import FunctionWrapper.SharedObjects

/-!
Wrappers share nothing.

Where calls keep to the callables that they run, a part of a program that keeps to its own group of
wrappers does not change what the rest sees, even if its wrappers are copies of others; and events
on different wrappers may happen in any order.
-/

namespace FunctionWrapper.Independence

open FunctionWrapper.Callables FunctionWrapper.Storage FunctionWrapper.Lifecycle
open FunctionWrapper.CallAcceptance FunctionWrapper.RunInvariant FunctionWrapper.Dispatch
open FunctionWrapper.ValueSemantics FunctionWrapper.ValueMachine FunctionWrapper.Histories
open FunctionWrapper.SharedObjects
open Runs

variable {τ Val Fn Raw Arg Ret Exc μ : Type} [DecidableEq τ] {E : Env τ Val Fn}
variable {L : Language τ Val Fn Raw Arg Ret Exc}

variable {ph : Phase} {A : Values τ Val} {G : ℕ → Bool}

def without (G : ℕ → Bool) (A : Values τ Val) : Values τ Val := fun w => if G w then none else A w

omit [DecidableEq τ] in
lemma without_of_not {w : ℕ} (hw : G w = false) : without G A w = A w := by
  simp [without, hw]

omit [DecidableEq τ] in
lemma without_update {w : ℕ} (hw : G w = false) (a : Option (Option (Callable τ Val))) :
    without G (Function.update A w a) = Function.update (without G A) w a := by
  funext v
  by_cases e : v = w
  · subst e
    simp [without, hw]
  · simp [without, e]

omit [DecidableEq τ] in
lemma without_update_of_mem {w : ℕ} (hw : G w = true) (a : Option (Option (Callable τ Val))) :
    without G (Function.update A w a) = without G A := by
  funext v
  by_cases e : v = w
  · subst e
    simp [without, hw]
  · simp [without, e]

omit [DecidableEq τ] in
lemma sourceObject_without {src : Source τ Val} (h : ∀ u r, src = .target u r → G u = false) :
    sourceObject (without G A) src = sourceObject A src := by
  cases src with
  | object o => rfl
  | target u r => simp [sourceObject, without_of_not (h u r rfl)]

omit [DecidableEq τ] in
lemma leave_without (left : Object τ Val → Val) {src : Source τ Val}
    (h : ∀ u r, src = .target u r → G u = false) :
    leave left (without G A) src = without G (leave left A src) := by
  cases src with
  | object o => rfl
  | target u r =>
    cases r with
    | false => rfl
    | true =>
      have hu := h u true rfl
      simp only [leave]
      rw [without_update hu, without_of_not hu]

lemma give_without {w : ℕ} {src : Source τ Val} (hw : G w = false)
    (h : ∀ u r, src = .target u r → G u = false) :
    give E ph w src (without G A) = without G (give E ph w src A) := by
  unfold give
  rw [sourceObject_without h]
  rcases sourceObject A src with _ | o
  · rfl
  · simp only [Option.elim_some]
    split
    · rw [without_update hw]
    · rw [← leave_without _ h, without_update hw]

omit [DecidableEq τ] in
lemma named_assignCallable (w : ℕ) (src : Source τ Val) :
    ValueSemantics.named (.assignCallable w src) = ValueSemantics.named (.construct w src) := by
  cases src <;> rfl

omit [DecidableEq τ] in
lemma source_of_named {w : ℕ} {src : Source τ Val}
    (h : ∀ v ∈ ValueSemantics.named (.construct w src), G v = false) :
    G w = false ∧ ∀ u r, src = .target u r → G u = false := by
  cases src with
  | object o => exact ⟨h w (by simp [ValueSemantics.named]), by simp⟩
  | target u r =>
    refine ⟨h w (by simp [ValueSemantics.named]), ?_⟩
    rintro _ _ ⟨⟩
    exact h u (by simp [ValueSemantics.named])

omit [DecidableEq τ] in
lemma canRun_without {op : Op τ Val} (h : ∀ w ∈ ValueSemantics.named op, G w = false) :
    CanRun E ph (without G A) op ↔ CanRun E ph A op := by
  have hsource : ∀ src, (∀ u r, src = .target u r → G u = false) →
      (Available E ph (without G A) src ↔ Available E ph A src) := by
    intro src hsrc
    cases src with
    | object o => exact Iff.rfl
    | target u r => rw [Available, Available, without_of_not (hsrc u r rfl)]
  cases op with
  | start => exact Iff.rfl
  | construct w src =>
    obtain ⟨hw, hsrc⟩ := source_of_named h
    rw [CanRun, CanRun, without_of_not hw, hsource src hsrc]
  | assignCallable w src =>
    obtain ⟨hw, hsrc⟩ := source_of_named (named_assignCallable w src ▸ h)
    rw [CanRun, CanRun, without_of_not hw, hsource src hsrc]
  | defaultConstruct w | reset w | destruct w | targetRuns w v =>
    rw [CanRun, CanRun, without_of_not (h w (by simp [ValueSemantics.named]))]
  | copyConstruct w u | moveConstruct w u | copyAssign w u | moveAssign w u | swap w u =>
    rw [CanRun, CanRun, without_of_not (h w (by simp [ValueSemantics.named])),
      without_of_not (h u (by simp [ValueSemantics.named]))]

omit [DecidableEq τ] in
lemma mayThrow_without {op : Op τ Val} (h : ∀ w ∈ ValueSemantics.named op, G w = false) :
    MayThrow E ph (without G A) op ↔ MayThrow E ph A op := by
  cases op with
  | copyConstruct w u | copyAssign w u =>
    rw [MayThrow, MayThrow, without_of_not (h u (by simp [ValueSemantics.named]))]
  | _ => exact Iff.rfl

omit [DecidableEq τ] in
lemma thrownStep_without {luck : Luck} {op : Op τ Val}
    (h : ∀ w ∈ ValueSemantics.named op, G w = false) :
    thrownStep E luck (without G A) op = without G (thrownStep E luck A op) := by
  cases op with
  | construct w src => exact leave_without _ (source_of_named h).2
  | copyAssign w u =>
    rw [thrownStep, thrownStep, without_update (h w (by simp [ValueSemantics.named]))]
  | assignCallable w src =>
    obtain ⟨hw, hsrc⟩ := source_of_named (named_assignCallable w src ▸ h)
    rw [thrownStep, thrownStep, ← leave_without _ hsrc, without_update hw]
  | _ => rfl

lemma valueStep_without {op : Op τ Val} (h : ∀ w ∈ ValueSemantics.named op, G w = false) :
    valueStep E ph (without G A) op = without G (valueStep E ph A op) := by
  cases op with
  | start => rfl
  | construct w src =>
    obtain ⟨hw, hsrc⟩ := source_of_named h
    exact give_without hw hsrc
  | assignCallable w src =>
    obtain ⟨hw, hsrc⟩ := source_of_named (named_assignCallable w src ▸ h)
    exact give_without hw hsrc
  | defaultConstruct w | reset w | destruct w | targetRuns w v =>
    have hw : G w = false := h w (by simp [ValueSemantics.named])
    simp only [valueStep, without_update hw, without_of_not hw]
  | copyConstruct w u | moveConstruct w u =>
    have hw : G w = false := h w (by simp [ValueSemantics.named])
    have hu : G u = false := h u (by simp [ValueSemantics.named])
    simp only [valueStep, without_update hw, without_update hu, without_of_not hu]
  | copyAssign w u | moveAssign w u | swap w u =>
    have hw : G w = false := h w (by simp [ValueSemantics.named])
    have hu : G u = false := h u (by simp [ValueSemantics.named])
    simp only [valueStep]
    split
    · rfl
    · simp only [without_update hw, without_update hu, without_of_not hw, without_of_not hu]

omit [DecidableEq τ] in
lemma changed_assignCallable (w : ℕ) (src : Source τ Val) :
    changed (.assignCallable w src) = changed (.construct w src) := by
  rcases src with _ | ⟨u, _ | _⟩ <;> rfl

omit [DecidableEq τ] in
lemma source_of_changed {w : ℕ} {src : Source τ Val}
    (h : ∀ v ∈ changed (.construct w src), G v = true) :
    G w = true ∧ ∀ u, src = .target u true → G u = true := by
  cases src with
  | object o => exact ⟨h w (by simp [changed, ValueSemantics.named]), by simp⟩
  | target u r =>
    cases r with
    | false => exact ⟨h w (by simp [changed]), by simp⟩
    | true =>
      refine ⟨h w (by simp [changed, ValueSemantics.named]), ?_⟩
      rintro _ ⟨⟩
      exact h u (by simp [changed, ValueSemantics.named])

omit [DecidableEq τ] in
lemma leave_within {left : Object τ Val → Val} {src : Source τ Val}
    (h : ∀ u, src = .target u true → G u = true) : without G (leave left A src) = without G A := by
  cases src with
  | object o => rfl
  | target u r =>
    cases r with
    | false => rfl
    | true => exact without_update_of_mem (h u rfl) _

lemma give_within {w : ℕ} {src : Source τ Val} (hw : G w = true)
    (h : ∀ u, src = .target u true → G u = true) :
    without G (give E ph w src A) = without G A := by
  unfold give
  rcases sourceObject A src with _ | o
  · rfl
  · simp only [Option.elim_some]
    split
    · exact without_update_of_mem hw _
    · rw [leave_within h, without_update_of_mem hw]

lemma valueStep_within {op : Op τ Val} (h : ∀ w ∈ changed op, G w = true) :
    without G (valueStep E ph A op) = without G A := by
  cases op with
  | start => rfl
  | construct w src =>
    obtain ⟨hw, hsrc⟩ := source_of_changed h
    exact give_within hw hsrc
  | assignCallable w src =>
    obtain ⟨hw, hsrc⟩ := source_of_changed (changed_assignCallable w src ▸ h)
    exact give_within hw hsrc
  | defaultConstruct w | reset w | destruct w | targetRuns w v =>
    exact without_update_of_mem (h w (by simp [changed, ValueSemantics.named])) _
  | copyConstruct w u => exact without_update_of_mem (h w (by simp [changed])) _
  | moveConstruct w u =>
    rw [valueStep, without_update_of_mem (h w (by simp [changed, ValueSemantics.named])),
      without_update_of_mem (h u (by simp [changed, ValueSemantics.named]))]
  | copyAssign w u =>
    rw [valueStep]
    split
    · rfl
    · exact without_update_of_mem (h w (by simp [changed])) _
  | moveAssign w u =>
    rw [valueStep]
    split
    · rfl
    · rw [without_update_of_mem (h w (by simp [changed, ValueSemantics.named])),
        without_update_of_mem (h u (by simp [changed, ValueSemantics.named]))]
  | swap w u =>
    rw [valueStep]
    split
    · rfl
    · rw [without_update_of_mem (h u (by simp [changed, ValueSemantics.named])),
        without_update_of_mem (h w (by simp [changed, ValueSemantics.named]))]

omit [DecidableEq τ] in
lemma thrownStep_within {luck : Luck} {op : Op τ Val} (h : ∀ w ∈ changed op, G w = true) :
    without G (thrownStep E luck A op) = without G A := by
  cases op with
  | construct w src => exact leave_within (source_of_changed h).2
  | copyAssign w u => exact without_update_of_mem (h w (by simp [changed])) _
  | assignCallable w src =>
    obtain ⟨hw, hsrc⟩ := source_of_changed (changed_assignCallable w src ▸ h)
    rw [thrownStep, leave_within hsrc, without_update_of_mem hw]
  | _ => rfl

/-- What names a wrapper of the group changes nothing outside: the group may take copies from
outside, and nothing outside takes anything from it. -/
def Confined (G : ℕ → Bool) (e : Event τ Val Raw Ret Exc) : Prop :=
  e.within G = true → ∀ w ∈ e.changed, G w = true

instance (e : Event τ Val Raw Ret Exc) : Decidable (Confined G e) :=
  inferInstanceAs (Decidable (e.within G = true → ∀ w ∈ e.changed, G w = true))

omit [DecidableEq τ] in
lemma named_of_not_within {e : Event τ Val Raw Ret Exc} (h : e.within G = false) :
    ∀ w ∈ e.named, G w = false := by
  simpa [Event.within] using h

omit [DecidableEq τ] in
lemma nextPhase_of_within {op : Op τ Val} {threw : Bool}
    (h : (Event.op op threw : Event τ Val Raw Ret Exc).within G = true) :
    nextPhase ph op = ph := by
  cases op with
  | start => cases h
  | _ => rfl

lemma step_without_iff {q r : Phase × Values τ Val} {e : Event τ Val Raw Ret Exc}
    (hout : e.within G = false) : (machine E L).step (q.1, without G q.2) e r ↔
      ∃ q', (machine E L).step q e q' ∧ r = (q'.1, without G q'.2) := by
  have hnamed := named_of_not_within hout
  cases e with
  | op op threw =>
    simp only [machine, canRun_without hnamed, mayThrow_without hnamed]
    cases threw with
    | true =>
      simp only [thrownStep_without hnamed]
      constructor
      · rintro ⟨hrun, hmay, luck, rfl⟩
        exact ⟨_, ⟨hrun, hmay, luck, rfl⟩, rfl⟩
      · rintro ⟨_, ⟨hrun, hmay, luck, rfl⟩, rfl⟩
        exact ⟨hrun, hmay, luck, rfl⟩
    | false =>
      simp only [valueStep_without hnamed]
      constructor
      · rintro ⟨hrun, hmay, rfl⟩
        exact ⟨_, ⟨hrun, hmay, rfl⟩, rfl⟩
      · rintro ⟨_, ⟨hrun, hmay, rfl⟩, rfl⟩
        exact ⟨hrun, hmay, rfl⟩
  | call w mode cat args seen =>
    have hw : G w = false := hnamed w (by simp [Event.named])
    simp only [machine, without_of_not hw, ← without_update hw]
    constructor
    · rintro ⟨a, s, ha, hacc, hseen, hend, rfl⟩
      exact ⟨_, ⟨a, s, ha, hacc, hseen, hend, rfl⟩, rfl⟩
    · rintro ⟨_, ⟨a, s, ha, hacc, hseen, hend, rfl⟩, rfl⟩
      exact ⟨a, s, ha, hacc, hseen, hend, rfl⟩
  | ask w hasValue bound =>
    have hw : G w = false := hnamed w (by simp [Event.named])
    simp only [machine, without_of_not hw]
    constructor
    · rintro ⟨a, ha, hhas, hbound, rfl⟩
      exact ⟨_, ⟨a, ha, hhas, hbound, rfl⟩, rfl⟩
    · rintro ⟨_, ⟨a, ha, hhas, hbound, rfl⟩, rfl⟩
      exact ⟨a, ha, hhas, hbound, rfl⟩

lemma step_within {q q' : Phase × Values τ Val} {e : Event τ Val Raw Ret Exc}
    (hin : e.within G = true) (hconf : Confined G e) (hs : (machine E L).step q e q') :
    q'.1 = q.1 ∧ without G q'.2 = without G q.2 := by
  have hchanged := hconf hin
  cases e with
  | op op threw =>
    refine ⟨(phase_of_op hs).trans (nextPhase_of_within hin), ?_⟩
    obtain ⟨-, -, hq⟩ := hs
    cases threw with
    | true =>
      obtain ⟨luck, rfl⟩ := hq
      exact thrownStep_within hchanged
    | false =>
      obtain rfl := hq
      exact valueStep_within hchanged
  | call w mode cat args seen =>
    obtain ⟨a, s, -, -, -, -, rfl⟩ := hs
    exact ⟨rfl, without_update_of_mem (hchanged w (by simp [Event.changed])) _⟩
  | ask w hasValue bound =>
    obtain ⟨a, -, -, -, rfl⟩ := hs
    exact ⟨rfl, rfl⟩

variable (E L G) in
/-- The rest of the program, without the group. -/
def projection : Simulation ((machine E L).restrict fun _ e => Confined G e) (machine E L)
    (Option.guard fun e => !e.within G) some where
  Rel q q' := q' = (q.1, without G q.2)
  init q hq := by
    have h0 : q = (.constant, fun _ => none) := hq
    subst h0
    exact ⟨(.constant, fun _ => none), rfl, Prod.ext rfl (funext fun w => by simp [without])⟩
  step q _ e q' := by
    rintro rfl ⟨hs, hconf⟩
    cases hin : e.within G with
    | true =>
      obtain ⟨hph, hval⟩ := step_within hin hconf hs
      exact ⟨[], _, .nil _, by simp [Option.guard, hin], by rw [hph, hval]⟩
    | false => exact ⟨[e], _, .single ((step_without_iff hin).mpr ⟨_, hs, rfl⟩),
        by simp [Option.guard, hin], rfl⟩

variable {K : SharedLanguage τ Val Fn Raw Arg Ret Exc μ} {m₀ : μ}

/-- **Isolation.** Where calls keep to their callables, a history stays one without the events of a
group that is confined. -/
theorem isolation (hK : Private K) {t : List (Event τ Val Raw Ret Exc)}
    (ht : t ∈ ownHistories K E m₀) (hG : ∀ e ∈ t, Confined G e) :
    t.filter (fun e => !e.within G) ∈ ownHistories K E m₀ := by
  rw [hK.ownHistories_eq] at ht ⊢
  obtain ⟨q, hpath⟩ := mem_histories_iff.mp ht
  refine (backward _ E).traces_subset ((projection E _ G).traces_subset
    ⟨_, q, t, rfl, hpath.restrict hG, ?_⟩)
  rw [List.filterMap_eq_filter]

theorem isolation_copy : [.op .start false, .op (.construct 0 (.object ⟨.counter, 7⟩)) false,
    .call 0 .call .l 5 (.value 12)] ∈ ownHistories countingShared (sampleEnv .copyable) () :=
  isolation (G := fun w => w == 1) counting_private
    (counting_private.ownHistories_eq () ▸ copyHistory_seen) (by decide)

/-! ### The order of events -/

/-- The events name different wrappers, and neither is the start of run time. -/
structure Independent (e f : Event τ Val Raw Ret Exc) : Prop where
  apart : ∀ w ∈ e.named, w ∉ f.named
  left : e.named ≠ []
  right : f.named ≠ []

/-- A step depends on the wrappers it names. -/
lemma step_local {q q' r : Phase × Values τ Val} {e : Event τ Val Raw Ret Exc}
    (hs : (machine E L).step q e q') (hphase : r.1 = q.1) (hval : ∀ w ∈ e.named, r.2 w = q.2 w) :
    ∃ r', (machine E L).step r e r' ∧ r'.1 = q'.1 ∧ ∀ w ∈ e.named, r'.2 w = q'.2 w := by
  -- the group of all other wrappers
  obtain ⟨G, hG⟩ : ∃ G : ℕ → Bool, ∀ w, G w = false ↔ w ∈ e.named :=
    ⟨fun w => !decide (w ∈ e.named), fun w => by simp⟩
  have hout : e.within G = false := by
    simp [Event.within, hG]
  have hsame : (q.1, without G q.2) = (r.1, without G r.2) := by
    rw [hphase]
    refine Prod.ext rfl (funext fun w => ?_)
    cases hw : G w with
    | true => simp [without, hw]
    | false => simp [without, hw, hval w ((hG w).mp hw)]
  have hs' := (step_without_iff hout).mpr ⟨q', hs, rfl⟩
  rw [hsame] at hs'
  obtain ⟨r', hr', e'⟩ := (step_without_iff hout).mp hs'
  refine ⟨r', hr', (congrArg Prod.fst e').symm, fun w hw => ?_⟩
  have := congrFun (congrArg Prod.snd e') w
  simpa [without, (hG w).mpr hw] using this.symm

lemma swaps_of_independent {e f : Event τ Val Raw Ret Exc} (h : Independent e f) :
    Swaps (machine E L) e f := by
  intro q q₁ q₂ he hf
  have hout : ∀ w ∈ f.named, w ∉ e.named := fun w hw hw' => h.apart w hw' hw
  obtain ⟨r, hr, hr1, hr2⟩ := step_local hf (r := q) (step_phase he h.left).symm
    fun w hw => (step_frame he (hout w hw)).symm
  obtain ⟨r', hr', hr1', hr2'⟩ := step_local he (r := r)
    (step_phase hr h.right) fun w hw => step_frame hr (h.apart w hw)
  refine ⟨r, hr, ?_⟩
  have hsame : r' = q₂ := by
    refine Prod.ext (hr1'.trans (step_phase hf h.right).symm) (funext fun w => ?_)
    by_cases hwe : w ∈ e.named
    · rw [hr2' w hwe, step_frame hf (h.apart w hwe)]
    · rw [step_frame hr' hwe]
      by_cases hwf : w ∈ f.named
      · exact hr2 w hwf
      · rw [step_frame hr hwf, step_frame hf hwf, step_frame he hwe]
  exact hsame ▸ hr'

/-- **Reordering.** Where calls keep to their callables, events on different wrappers may come in
any order. -/
theorem reordering (hK : Private K) {t t' : List (Event τ Val Raw Ret Exc)}
    (ht : t ∈ ownHistories K E m₀)
    (htt : Relation.ReflTransGen (Exchange Independent) t t') : t' ∈ ownHistories K E m₀ := by
  rw [hK.ownHistories_eq, mem_histories_iff] at ht ⊢
  obtain ⟨q, hpath⟩ := ht
  exact ⟨q, hpath.reorder (fun _ _ => swaps_of_independent) htt⟩

theorem reordering_copy : [.op .start false, .op (.construct 0 (.object ⟨.counter, 7⟩)) false,
    .op (.copyConstruct 1 0) false, .call 1 .call .l 5 (.value 12), .call 0 .call .l 5 (.value 12),
    .call 1 .call .l 5 (.value 13)] ∈ ownHistories countingShared (sampleEnv .copyable) () :=
  reordering counting_private (counting_private.ownHistories_eq () ▸ copyHistory_seen) <| .single <|
    Exchange.swap (copyHistory.take 4) _ _ [] ⟨by decide, nofun, nofun⟩

end FunctionWrapper.Independence
