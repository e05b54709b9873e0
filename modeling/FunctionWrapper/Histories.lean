import FunctionWrapper.ValueMachine
import Mathlib.Data.Set.Finite.Basic

/-!
What a program can see of its wrappers.

The histories of the wrappers, with their storages, tags and blocks, are the histories of the
machine of values: whatever operations the program runs, whatever they throw and whatever the calls
do, and in constant evaluation as at run time.
-/

namespace FunctionWrapper.Histories

open FunctionWrapper.Types FunctionWrapper.Traits FunctionWrapper.Signatures
open FunctionWrapper.Callables FunctionWrapper.Storage
open FunctionWrapper.Lifecycle FunctionWrapper.CallAcceptance FunctionWrapper.StorageForms
open FunctionWrapper.WrapperSpec FunctionWrapper.RunInvariant FunctionWrapper.Dispatch
open FunctionWrapper.DispatchSpec FunctionWrapper.InvokedTargets FunctionWrapper.ValueSemantics
open FunctionWrapper.ThrowConditions FunctionWrapper.ValueMachine
open Runs

variable {τ Val Fn Raw Arg Ret Exc : Type} [DecidableEq τ]
variable (L : Language τ Val Fn Raw Arg Ret Exc) (E : Env τ Val Fn)

/-- A call that is accepted, and what it leaves of the target. -/
def callWrapper (w : ℕ) (mode : Mode) (cat : Category) (args : Raw) (W : World τ Val Fn) :
    Option (World τ Val Fn × Outcome Ret Exc) := do
  let s ← acceptedSignature L.program .wrapper mode E.sigs (L.types args)
  let r ← dispatch L.toCalls E W w mode cat s args
  match invoked E L.toCalls W w mode cat s args with
  | some (.object o) =>
    let W ← targetRuns w (objectAfter E L mode cat s args o).val W
    return (W, r)
  | _ => return (W, r)

/-- The runs of a program that also calls its wrappers and asks them. A step is what the program
sees of it, beside what the constructions meet. -/
def wrappers : System (World τ Val Fn) (Event τ Val Raw Ret Exc × Luck) where
  init W := W = .init
  step W e W' :=
    match e.1 with
    | .op op threw => (system E).step W ⟨op, e.2, threw⟩ W'
    | .call w mode cat args seen => callWrapper L E w mode cat args W = some (W', seen) ∧
        seen ≠ .terminated
    | .ask w hasValue bound => wrapperHasValue E W w = some hasValue ∧
        boundSignatures E W w = some bound ∧ W' = W

def histories : Set (List (Event τ Val Raw Ret Exc)) :=
  Traces (wrappers L E) fun e => some e.1

variable {L E} {W W' : World τ Val Fn} {A : Values τ Val} {w u : ℕ} {op : Op τ Val}

lemma live_iff (h : Relates E (view W) A) : Live W w ↔ A w ≠ none := by
  have hw := h w
  rw [← not_iff_not, not_not, ← view_eq_none]
  generalize view W w = p at hw ⊢
  generalize A w = q at hw ⊢
  cases hw <;> simp

lemma stored_iff {V : View τ Val Fn} (h : Relates E V A) {o : Object τ Val} :
    (V u).bind Prod.snd = some o ↔ A u = some (some (.stored o)) := by
  have hu := h u
  generalize V u = p at hu ⊢
  generalize A u = q at hu ⊢
  cases hu with
  | none => simp
  | some hr => cases hr <;> simp

lemma content_eq_some_iff (hw : Whole E W) (h : Relates E (view W) A) {o : Object τ Val} :
    content W (.of u) = some o ↔ A u = some (some (.stored o)) := by
  rw [content_eq_view hw, stored_iff h]

lemma live_of_stored (h : Relates E (view W) A) {o : Object τ Val}
    (ho : A w = some (some (.stored o))) : Live W w :=
  (live_iff h).mpr (by simp [ho])

lemma sourceOk_iff (hw : Whole E W) (h : Relates E (view W) A) (src : Source τ Val) :
    SourceOk E W src ↔ Available E W.phase A src := by
  cases src with
  | object o => exact Iff.rfl
  | target u r =>
    simp only [SourceOk, Available, read_target, content_eq_some_iff hw h]
    refine and_congr_right fun _ => ⟨fun hex => hex.2, fun hex => ⟨?_, hex⟩⟩
    obtain ⟨o, ho, -⟩ := hex
    exact live_of_stored h ho

lemma canRun_iff (hw : Whole E W) (h : Relates E (view W) A) :
    CanRun E W.phase A op ↔ Enabled E W op ∧ ¬ SelfSourced op := by
  cases op with
  | targetRuns w v =>
    simp only [Enabled, CanRun, SelfSourced, not_false_eq_true, and_true, read_target,
      content_eq_some_iff hw h]
    refine and_congr_right fun _ => ⟨fun hex => ⟨?_, hex⟩, fun hex => hex.2⟩
    obtain ⟨o, ho⟩ := hex
    exact live_of_stored h ho
  | assignCallable w src => rw [Enabled, CanRun, live_iff h, sourceOk_iff hw h, and_assoc]
  | construct w src => simp [Enabled, CanRun, SelfSourced, live_iff h, sourceOk_iff hw h]
  | _ => simp [Enabled, CanRun, SelfSourced, live_iff h]

lemma copyMayThrow_of {V : View τ Val Fn} (h : Relates E V A) {ph : Phase} {luck : Luck}
    (ht : (decide (ph = .run) &&
      ((V u).bind Prod.snd).any fun o => copyThrows E luck o.type) = true) :
    CopyMayThrow E ph (A u) := by
  simp only [Bool.and_eq_true, decide_eq_true_eq, Option.any_eq_true, copyThrows] at ht
  obtain ⟨hp, o, ho, hcopy, -⟩ := ht
  exact ⟨hp, o, (stored_iff h).mp ho, (Bool.not_eq_true' _).mp hcopy⟩

/-- What throws may throw. -/
lemma mayThrow_of_stepThrows {V : View τ Val Fn} (h : Relates E V A) {ph : Phase} {luck : Luck}
    (ht : stepThrows E ph V luck op = true) : MayThrow E ph A op := by
  cases op with
  | construct w src => simpa [MayThrow] using (Bool.and_eq_true_iff.mp ht).1
  | assignCallable w src => simpa [MayThrow] using (Bool.and_eq_true_iff.mp ht).1
  | copyConstruct w u => exact copyMayThrow_of h ht
  | copyAssign w u =>
    obtain ⟨hwu, ht⟩ := Bool.and_eq_true_iff.mp ht
    exact ⟨of_decide_eq_true hwu, copyMayThrow_of h ht⟩
  | _ => cases ht

lemma copyThrows_of_mayThrow {V : View τ Val Fn} (h : Relates E V A) {ph : Phase} (n : ℕ)
    (noMemory : Bool) (hmay : CopyMayThrow E ph (A u)) : (decide (ph = .run) &&
      ((V u).bind Prod.snd).any fun o => copyThrows E ⟨noMemory, true, n⟩ o.type) = true := by
  obtain ⟨hp, o, ho, hcopy⟩ := hmay
  simp only [(stored_iff h).mpr ho, hp, decide_true, Option.any_some, copyThrows,
    constructionThrows, Bool.true_or, Bool.and_true, hcopy, Bool.not_false]

lemma stepThrows_of_mayThrow (h : Relates E (view W) A) (n : ℕ) (noMemory : Bool)
    (hrun : CanRun E W.phase A op) (hmay : MayThrow E W.phase A op) :
    stepThrows E W.phase (view W) ⟨noMemory, true, n⟩ op = true := by
  have hsource : ∀ src, Available E W.phase A src → W.phase = .run →
      (decide (W.phase = .run) && (sourceValue (view W) src).any fun o =>
        constructionThrows E ⟨noMemory, true, n⟩ o.type) = true := by
    intro src hsrc hp
    obtain ⟨o, ho⟩ : ∃ o, sourceValue (view W) src = some o := by
      cases src with
      | object o => exact ⟨o, rfl⟩
      | target u r =>
        obtain ⟨-, o, ho, -⟩ := hsrc
        exact ⟨o, (stored_iff h).mpr ho⟩
    simp [ho, hp, constructionThrows]
  cases op with
  | construct w src => exact hsource src hrun.2 hmay
  | assignCallable w src => exact hsource src hrun.2.1 hmay
  | copyConstruct w u => exact copyThrows_of_mayThrow h n noMemory hmay
  | copyAssign w u =>
    rw [stepThrows, copyThrows_of_mayThrow h n noMemory hmay.2, decide_eq_true hmay.1]
    rfl
  | _ => cases hmay

omit [DecidableEq τ] in
lemma stepThrows_calm (ph : Phase) (V : View τ Val Fn) (n : ℕ) (op : Op τ Val) :
    stepThrows E ph V ⟨false, false, n⟩ op = false := by
  cases op <;> simp [stepThrows, copyThrows, constructionThrows]

lemma relates_threw {V : View τ Val Fn} (h : Relates E V A) {ph : Phase} (luck : Luck)
    (hmay : MayThrow E ph A op) :
    Relates E (viewStep E ph luck true V op) (thrownStep E luck A op) := by
  cases op with
  | copyAssign w u =>
    obtain ⟨hwu, -, o, ho, -⟩ := hmay
    rw [viewStep, thrownStep, if_neg hwu, if_pos rfl]
    refine h.update w ?_
    -- the constant part that was copied is idle
    have hu := h u
    rw [ho] at hu
    generalize V u = p at hu ⊢
    cases hu with
    | some hr =>
      cases hr with
      | stored c hoff o => exact .some (.empty c hoff)
  | assignCallable w src => exact (h.clear w).leave _ src
  | construct w src => exact h.leave _ src
  | copyConstruct w u => exact h
  | _ => cases hmay

lemma slots_eq {c : Constant Fn} {o : Option (Object τ Val)} {a : Option (Callable τ Val)}
    (hcoh : Coherent E c o) (hr : Represents E (c, o) a) (hnone : o = none) {s : Sig}
    (hs : s ∈ E.sigs) : c.slots s = valueSlots E a s := by
  cases hr with
  | empty _ hoff => exact hcoh.idle hoff s hs
  | stored _ hoff o => cases hnone
  | constant _ hon o hslots => exact hslots s hs

lemma answers_eq (hinv : Inv E W) (h : Relates E (view W) A) {a : Option (Callable τ Val)}
    (ha : A w = some a) :
    wrapperHasValue E W w = some (valueHas E W.phase a) ∧
    boundSignatures E W w = some (valueBound E a) ∧
    ∀ mode cat s args, s ∈ E.sigs → dispatch L.toCalls E W w mode cat s args =
      some (valueCall E L W.phase a mode cat s args) := by
  obtain ⟨c, o, hv⟩ := live_view ((live_iff h).mpr (by simp [ha] : A w ≠ none))
  have hr := h w
  rw [hv, ha] at hr
  cases hr with
  | some hr =>
    cases hp : W.phase with
    | run =>
      have hans := answers_of_represents L.toCalls hinv hp hv hr
      exact ⟨hans.hasValue, hans.bound, hans.calls⟩
    | constant =>
      obtain ⟨hc, ho⟩ := view_eq_some hv
      have hnone : o = none := ho.symm.trans (hinv.still hp _)
      have hslots := fun s hs => slots_eq (hinv.coherent w c o hv) hr hnone (s := s) hs
      obtain ⟨self, hself⟩ := hinv.toWhole.storage (w := w) (by simp [Live, hc])
      have hbound : E.sigs.map (fun s => (c.slots s).isSome) = valueBound E a := by
        refine List.map_congr_left fun s hs => ?_
        rw [hslots s hs]
        cases hr with
        | stored _ _ o => cases hnone
        | _ => rfl
      refine ⟨?_, ?_, fun mode cat s args hs => ?_⟩
      · simp [wrapperHasValue, hc, hself, hp, valueHas, hasValue, ← hbound]
      · rw [boundSignatures_slots hinv hc (.inl hp), hbound]
      · rw [dispatch_slots L.toCalls hinv hc (.inl hp), valueCall, if_pos rfl, invokeSlot,
          invokeSlot, hslots s hs]

lemma invoked_object_iff (hinv : Inv E W) (h : Relates E (view W) A) (hw : Live W w) {mode : Mode}
    {cat : Category} {s : Sig} {args : Raw} {o : Object τ Val} :
    invoked E L.toCalls W w mode cat s args = some (.object o) ↔
      A w = some (some (.stored o)) ∧
        ∃ b, convert L.toCalls mode s args = .ok b ∧ E.exactInvocable o.type cat s = true := by
  obtain ⟨c, hc⟩ := Option.ne_none_iff_exists'.mp hw
  rw [← content_eq_some_iff hinv.toWhole h]
  by_cases huse : W.phase = .constant ∨ c.active = true
  · have hnone : content W (.of w) = none :=
      huse.elim (fun hp => hinv.still hp _) (hinv.coherent w c _ (view_of_live hc)).alone
    simp [invoked_slots_iff hinv hc huse, hnone]
  · obtain ⟨hrun, hoff⟩ := run_of_not_slots huse
    rw [invoked_content_iff hinv hc hrun hoff]
    constructor
    · rintro ⟨o, b, ho, hb, hx, ⟨⟩⟩
      exact ⟨ho, b, hb, hx⟩
    · rintro ⟨ho, b, hb, hx⟩
      exact ⟨o, b, ho, hb, hx, rfl⟩

omit [DecidableEq τ] in
lemma run_of_content (hinv : Inv E W) {o : Object τ Val} (ho : content W (.of w) = some o) :
    W.phase = .run := by
  cases hp : W.phase with
  | run => rfl
  | constant => simp [hinv.still hp] at ho

lemma idle_of_stored {V : View τ Val Fn} (h : Relates E V A) {o : Object τ Val}
    (ho : A w = some (some (.stored o))) : ∃ c, V w = some (c, some o) ∧ c.active = false := by
  have hw := h w
  rw [ho] at hw
  generalize V w = p at hw ⊢
  cases hw with
  | some hr =>
    cases hr with
    | stored c hoff o => exact ⟨c, rfl, hoff⟩

/-- A call answers as the value does, and leaves the wrapper with what it left of the callable. -/
lemma call_spec (hinv : Inv E W) (h : Relates E (view W) A) {a : Option (Callable τ Val)}
    (ha : A w = some a) (mode : Mode) (cat : Category) {s : Sig} {args : Raw}
    (hacc : acceptedSignature L.program .wrapper mode E.sigs (L.types args) = some s) :
    ∃ W', callWrapper L E w mode cat args W =
        some (W', valueCall E L W.phase a mode cat s args) ∧
      Inv E W' ∧ W'.phase = W.phase ∧
      Relates E (view W') (Function.update A w (some (a.map (Callable.mapStored
        (objectAfter E L mode cat s args))))) := by
  have hw : Live W w := (live_iff h).mpr (by simp [ha])
  have hdispatch := (answers_eq (L := L) hinv h ha).2.2 mode cat s args (accepted_mem hacc)
  have hobject : ∀ o, invoked E L.toCalls W w mode cat s args = some (.object o) ↔ _ :=
    fun o => invoked_object_iff hinv h hw
  by_cases hex : ∃ o, invoked E L.toCalls W w mode cat s args = some (.object o)
  · -- the stored callable runs
    obtain ⟨o, ho⟩ := hex
    obtain ⟨hstored, b, hb, hx⟩ := (hobject o).mp ho
    obtain ⟨c, hV, hoff⟩ := idle_of_stored h hstored
    have hcon : content W (.of w) = some o := (view_eq_some hV).2
    have hrun : W.phase = .run := run_of_content hinv hcon
    obtain ⟨o', ho'⟩ : ∃ o', o' = objectAfter E L mode cat s args o := ⟨_, rfl⟩
    have hval : ({ o with val := o'.val } : Object τ Val) = o' := by
      simp only [ho', objectAfter, hb, hx, if_true]
    obtain ⟨W', e, hwhole, hphase, hview⟩ := targetRuns_spec hinv.toWhole hrun
      ((read_target false).trans hcon) o'.val
    rw [hval, hV, Option.map_some] at hview
    refine ⟨W', by simp [callWrapper, hacc, hdispatch, ho, e, ← ho'], ⟨hwhole, ?_⟩, hphase, ?_⟩
    · have hcoh : CoherentView E (Function.update (view W) w (some (c, some o'))) :=
        EveryWrapper.set hinv.coherent ⟨fun _ => (hinv.coherent w c _ hV).idle hoff, by simp [hoff]⟩
      rwa [hview]
    · obtain rfl : a = some (.stored o) := Option.some.inj (ha.symm.trans hstored)
      rw [hview, Option.map_some, Callable.mapStored, ← ho']
      exact h.update w (.some (.stored c hoff o'))
  · -- a function runs, or nothing
    refine ⟨W, ?_, hinv, rfl, ?_⟩
    · simp only [callWrapper, hacc, hdispatch, Option.bind_eq_bind, Option.bind_some]
      split
      · next o ho => exact absurd ⟨o, ho⟩ hex
      · rfl
    · have hsame : a.map (Callable.mapStored (objectAfter E L mode cat s args)) = a := by
        rcases a with _ | (o | o)
        · rfl
        · have hnot : ¬ ∃ b, convert L.toCalls mode s args = .ok b ∧
              E.exactInvocable o.type cat s = true := fun hb => hex ⟨o, (hobject o).mpr ⟨ha, hb⟩⟩
          rw [Option.map_some, Callable.mapStored, objectAfter]
          split
          · rfl
          · next b hb => rw [if_neg fun hx => hnot ⟨b, hb, hx⟩]
        · rfl
      rw [hsame, ← ha, Function.update_eq_self]
      exact h

/-! ### The wrappers and the machine -/

variable (E) in
structure Agrees (W : World τ Val Fn) (q : Phase × Values τ Val) : Prop where
  inv : Inv E W
  phase : W.phase = q.1
  values : Relates E (view W) q.2

omit [DecidableEq τ] in
lemma live_of_bind {β : Type} {f : Constant Fn → Option β} {r : β}
    (h : (W.constants w).bind f = some r) : Live W w := by
  obtain ⟨c, hc, -⟩ := Option.bind_eq_some_iff.mp h
  simp [Live, hc]

lemma follow_step {q : Phase × Values τ Val} {e : Event τ Val Raw Ret Exc} {luck : Luck}
    (h : Agrees E W q) (hs : (wrappers L E).step W (e, luck) W') :
    ∃ q', (machine E L).step q e q' ∧ Agrees E W' q' := by
  obtain ⟨hinv, hphase, hrel⟩ := h
  obtain ⟨ph, A⟩ := q
  obtain rfl : W.phase = ph := hphase
  cases e with
  | op op threw =>
    have hself := not_selfSourced hinv.toWhole hs.1 hs.2.2
    have hmay : threw = true → MayThrow E W.phase A op := fun ht =>
      mayThrow_of_stepThrows hrel ((exec_threw_eq hinv.toWhole hs.1 hs.2.2).symm.trans ht)
    obtain ⟨-, hphase', hview⟩ := step_spec hinv.toWhole hs
    have hrun : CanRun E W.phase A op := (canRun_iff hinv.toWhole hrel).mpr ⟨hs.1, hself⟩
    cases threw with
    | true =>
      refine ⟨_, ⟨hrun, hmay, luck, rfl⟩, inv_step hinv hs, hphase', ?_⟩
      exact hview ▸ relates_threw hrel luck (hmay rfl)
    | false =>
      refine ⟨_, ⟨hrun, hmay, rfl⟩, inv_step hinv hs, hphase', ?_⟩
      exact hview ▸ relates_step hinv.toWhole hrel hs.1 luck
  | call w mode cat args seen =>
    obtain ⟨hcall, hend⟩ := hs
    obtain ⟨s, hacc, hrest⟩ := Option.bind_eq_some_iff.mp hcall
    obtain ⟨r, hdispatch, -⟩ := Option.bind_eq_some_iff.mp hrest
    obtain ⟨a, ha⟩ := Option.ne_none_iff_exists'.mp ((live_iff hrel).mp (live_of_bind hdispatch))
    obtain ⟨W₁, e₁, hinv₁, hphase₁, hrel₁⟩ := call_spec hinv hrel ha mode cat hacc
    obtain ⟨rfl, rfl⟩ := Prod.mk.inj (Option.some.inj (e₁.symm.trans hcall))
    exact ⟨_, ⟨a, s, ha, hacc, rfl, hend, rfl⟩, hinv₁, hphase₁, hrel₁⟩
  | ask w hasValue bound =>
    obtain ⟨hhas, hbound, rfl⟩ := hs
    obtain ⟨a, ha⟩ := Option.ne_none_iff_exists'.mp ((live_iff hrel).mp (live_of_bind hhas))
    obtain ⟨hhas', hbound', -⟩ := answers_eq (L := L) hinv hrel ha
    exact ⟨_, ⟨a, ha, Option.some.inj (hhas.symm.trans hhas'),
      Option.some.inj (hbound.symm.trans hbound'), rfl⟩, hinv, rfl, hrel⟩

/-- Some block of the heap is free: only the wrappers that exist own blocks. -/
lemma exists_free_block (hw : Whole E W) (h : Relates E (view W) A)
    (hfin : {w | A w ≠ none}.Finite) : ∃ n, W.mem.get (.block n) = none := by
  by_contra hall
  push Not at hall
  have hblocks : (Set.univ : Set ℕ).Finite := by
    refine Set.Finite.of_finite_image (f := fun n => some (Site.block n)) ?_ (by
      intro m _ n _ hmn
      simpa using hmn)
    refine (hfin.image fun w => owner W (.of w)).subset ?_
    rintro _ ⟨n, -, rfl⟩
    obtain ⟨p, hp⟩ := hw.store.owned.owner _ (hall n)
    cases p with
    | tmp => simp [owner, hw.tmp] at hp
    | of w =>
      refine ⟨w, ?_, hp⟩
      refine (live_iff h).mp fun hdead => ?_
      simp [owner, (hw.made w).mpr hdead] at hp
  exact Set.infinite_univ hblocks

omit [DecidableEq τ] in
lemma freeBlock_of_free {n : ℕ} (hn : W.mem.get (.block n) = none) : FreeBlock W n op := by
  cases op with
  | copyAssign w u => exact .inl hn
  | assignCallable w src => exact .inl hn
  | _ => exact hn

lemma finite_step {q q' : Phase × Values τ Val} {e : Event τ Val Raw Ret Exc}
    (hfin : {w | q.2 w ≠ none}.Finite) (hs : (machine E L).step q e q') :
    {w | q'.2 w ≠ none}.Finite := by
  refine (hfin.union (List.finite_toSet e.named)).subset fun v hv => ?_
  by_contra hout
  simp only [Set.mem_union, Set.mem_ofPred_eq, not_or, not_not] at hout
  obtain ⟨hnone, hnamed⟩ := hout
  exact hv ((step_frame hs hnamed).trans hnone)

lemma realize_step {q q' : Phase × Values τ Val} {e : Event τ Val Raw Ret Exc}
    (h : Agrees E W q) (hfin : {w | q.2 w ≠ none}.Finite) (hs : (machine E L).step q e q') :
    ∃ luck W', (wrappers L E).step W (e, luck) W' ∧ Agrees E W' q' := by
  obtain ⟨hinv, hphase, hrel⟩ := h
  obtain ⟨ph, A⟩ := q
  obtain rfl : W.phase = ph := hphase
  cases e with
  | op op threw =>
    obtain ⟨hrun, hmay, hq⟩ := hs
    obtain ⟨hen, hself⟩ := (canRun_iff hinv.toWhole hrel).mp hrun
    obtain ⟨n, hn⟩ := exists_free_block hinv.toWhole hrel hfin
    have hrealized : ∀ luck : Luck, luck.block = n → stepThrows E W.phase (view W) luck op = threw →
        ∃ W', (system E).step W ⟨op, luck, threw⟩ W' ∧ W'.phase = nextPhase W.phase op ∧
          view W' = viewStep E W.phase luck threw (view W) op := by
      rintro luck rfl hthrows
      have hblock : FreeBlock W luck.block op := freeBlock_of_free hn
      obtain ⟨W', threw', he, -, hphase', hview⟩ := exec_spec hinv.toWhole hen hblock hself
      obtain rfl : threw' = threw := (exec_threw_eq hinv.toWhole hen he).trans hthrows
      exact ⟨W', ⟨hen, hblock, he⟩, hphase', hview⟩
    cases threw with
    | true =>
      -- the constructor throws, if there is memory for the object
      obtain ⟨⟨noMemory, throws, block⟩, rfl⟩ := hq
      obtain ⟨W', hs, hphase', hview⟩ := hrealized ⟨noMemory, true, n⟩ rfl
        (stepThrows_of_mayThrow hrel n noMemory hrun (hmay rfl))
      refine ⟨_, W', hs, inv_step hinv hs, hphase', ?_⟩
      exact hview ▸ relates_threw hrel ⟨noMemory, true, n⟩ (hmay rfl)
    | false =>
      obtain rfl := hq
      obtain ⟨W', hs, hphase', hview⟩ := hrealized ⟨false, false, n⟩ rfl (stepThrows_calm _ _ n op)
      refine ⟨_, W', hs, inv_step hinv hs, hphase', ?_⟩
      exact hview ▸ relates_step hinv.toWhole hrel hen _
  | call w mode cat args seen =>
    obtain ⟨a, s, ha, hacc, rfl, hend, rfl⟩ := hs
    obtain ⟨W', e, hinv', hphase', hrel'⟩ := call_spec hinv hrel ha mode cat hacc
    exact ⟨⟨false, false, 0⟩, W', ⟨e, hend⟩, hinv', hphase', hrel'⟩
  | ask w hasValue bound =>
    obtain ⟨a, ha, rfl, rfl, rfl⟩ := hs
    obtain ⟨hhas, hbound, -⟩ := answers_eq (L := L) hinv hrel ha
    exact ⟨⟨false, false, 0⟩, W, ⟨hhas, hbound, rfl⟩, hinv, rfl, hrel⟩

/-! ### Histories -/

lemma agrees_init : Agrees E (.init : World τ Val Fn) (.constant, fun _ => none) :=
  ⟨inv_init, rfl, fun _ => .none⟩

variable (L E) in
def forward : Simulation (wrappers L E) (machine E L) (fun e => some e.1) some where
  Rel := Agrees E
  init W hW := ⟨_, rfl, (show W = .init from hW) ▸ agrees_init⟩
  step W q e W' h hs := by
    obtain ⟨q', hs', h'⟩ := follow_step h hs
    exact ⟨[e.1], q', .single hs', rfl, h'⟩

variable (L E) in
def backward : Simulation (machine E L) (wrappers L E) some fun e => some e.1 where
  Rel q W := Agrees E W q ∧ {w | q.2 w ≠ none}.Finite
  init q hq := by
    have h0 : q = (.constant, fun _ => none) := hq
    subst h0
    exact ⟨.init, rfl, agrees_init, by simp⟩
  step q W e q' := by
    rintro ⟨h, hfin⟩ hs
    obtain ⟨luck, W', hs', h'⟩ := realize_step h hfin hs
    exact ⟨[(e, luck)], W', .single hs', rfl, h', finite_step hfin hs⟩

lemma mem_traces_start {t : List (Event τ Val Raw Ret Exc)} : t ∈ Traces (machine E L) some ↔
    ∃ q, Path (machine E L) t (.constant, fun _ => none) q :=
  mem_traces_from fun _ => Iff.rfl

lemma mem_histories_iff {t : List (Event τ Val Raw Ret Exc)} :
    t ∈ histories L E ↔ ∃ q, Path (machine E L) t (.constant, fun _ => none) q := by
  rw [← mem_traces_start]
  exact ⟨fun h => (forward L E).traces_subset h, fun h => (backward L E).traces_subset h⟩

variable (L E) in
/-- **Programs see values.** The histories of the wrappers are exactly those of the machine of
values: every operation, exception, call and answer of the wrappers is one of the values, and what
the values can do the wrappers do. -/
theorem histories_eq : histories L E = Traces (machine E L) some :=
  Set.ext fun _ => mem_histories_iff.trans mem_traces_start.symm

/-- Calls with one `int`, on callables that count their calls. -/
def countingCalls : Language Sample ℕ ℕ ℕ ℕ ℕ Unit :=
  { sampleCalls with
    program := arithmeticOnly
    after := fun _ _ _ v _ => v + 1 }

/-- A counter is copied, and the copy is called twice. -/
def copyHistory : List (Event Sample ℕ ℕ ℕ Unit) :=
  [.op .start false, .op (.construct 0 (.object ⟨.counter, 7⟩)) false,
    .op (.copyConstruct 1 0) false, .call 1 .call .l 5 (.value 12), .call 1 .call .l 5 (.value 13),
    .call 0 .call .l 5 (.value 12)]

lemma copyHistory_seen : copyHistory ∈ histories countingCalls (sampleEnv .copyable) := by
  have hacc : acceptedSignature arithmeticOnly .wrapper .call [intToInt] [.val (.arith .int)] =
      some intToInt := by decide
  rw [mem_histories_iff]
  exact ⟨_, .cons ⟨rfl, nofun, rfl⟩ <| .cons ⟨⟨rfl, rfl, nofun⟩, nofun, rfl⟩ <|
    .cons ⟨⟨rfl, rfl, nofun⟩, nofun, rfl⟩ <| .cons ⟨_, _, rfl, hacc, rfl, nofun, rfl⟩ <|
    .cons ⟨_, _, rfl, hacc, rfl, nofun, rfl⟩ <| .cons ⟨_, _, rfl, hacc, rfl, nofun, rfl⟩ <| .nil _⟩

end FunctionWrapper.Histories
