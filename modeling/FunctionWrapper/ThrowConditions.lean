import FunctionWrapper.RunInvariant

/-!
When a step of a run throws.

Only a construction of a callable can throw, and only at run time: the constructor, or `operator
new` where the callable does not fit the buffer. Bytes are copied without a constructor.
-/

namespace FunctionWrapper.ThrowConditions

open FunctionWrapper.Callables FunctionWrapper.Storage FunctionWrapper.Lifecycle
open FunctionWrapper.StorageForms FunctionWrapper.StorageSpec FunctionWrapper.WrapperSpec
open FunctionWrapper.RunInvariant
open OwnedCells

variable {τ Val Fn : Type} (E : Env τ Val Fn)

/-- A construction of an object of the type throws. -/
def constructionThrows (luck : Luck) (T : τ) : Bool :=
  luck.throws || (!E.fitsInSbo T && luck.allocFails)

def copyThrows (luck : Luck) (T : τ) : Bool :=
  !(E.fitsInSbo T && E.layout.triviallyCopyable T) && constructionThrows E luck T

def stepThrows (ph : Phase) (V : View τ Val Fn) (luck : Luck) : Op τ Val → Bool
  | .construct _ src | .assignCallable _ src =>
    decide (ph = .run) && (sourceValue V src).any fun o => constructionThrows E luck o.type
  | .copyConstruct _ u =>
    decide (ph = .run) && ((V u).bind Prod.snd).any fun o => copyThrows E luck o.type
  | .copyAssign w u => decide (w ≠ u) &&
    (decide (ph = .run) && ((V u).bind Prod.snd).any fun o => copyThrows E luck o.type)
  | _ => false

variable {E} {W W' : World τ Val Fn} {p q : Place} {w u : ℕ} {luck : Luck} {threw : Bool}

lemma emplace_threw {o : Object τ Val} {m : Mem τ Val} {s : WrapperStorage} :
    (if E.fitsInSbo o.type then emplaceSmallStorage E p o luck m s
      else emplaceHeapStorage E p o luck m s).2.2 = constructionThrows E luck o.type := by
  cases hfit : E.fitsInSbo o.type with
  | true => cases hthrow : luck.throws <;>
      simp [emplaceSmallStorage, constructionThrows, hfit, hthrow]
  | false => cases hthrow : luck.throws <;> cases halloc : luck.allocFails <;>
      simp [emplaceHeapStorage, constructionThrows, hfit, hthrow, halloc]

variable [DecidableEq τ]

lemma copyStorage_threw_eq (h : StoreInv E W) (e : copyStorage E q p luck W = some (W', threw)) :
    threw = (content W p).any fun o => copyThrows E luck o.type := by
  obtain ⟨d, hd, e'⟩ := Option.bind_eq_some_iff.mp e
  obtain ⟨s, hs, -⟩ := Option.bind_eq_some_iff.mp e'
  have hh := h.holds p s hs
  generalize content W p = c at hh
  cases hh with
  | empty k =>
    simp [copyStorage, hd, hs] at e
    simp [← e.2]
  | small o hfit hacc hget =>
    cases ht : E.layout.triviallyCopyable o.type with
    | true =>
      simp [copyStorage, hd, hs, ht, copyTrivialSmallStorage,
        show (smallStorage E p o.type).payload = .sbo from rfl, hget] at e
      simp [← e.2, copyThrows, hfit, ht]
    | false =>
      cases hc : E.layout.copyConstructible o.type <;> cases hthrow : luck.throws <;>
        simp [copyStorage, hd, hs, ht, E.vtables.typeAt_address, guard, hc, Storage.copy,
          readAt_eq hget, hthrow] at e <;>
        simp [← e.2, copyThrows, constructionThrows, hfit, ht, hthrow]
  | heap o n hfit hacc hget =>
    have hpayload : (heapStorage E n o.type).payload = .heap (some (.block n)) := rfl
    cases hc : E.layout.copyConstructible o.type <;> cases hthrow : luck.throws <;>
      cases halloc : luck.allocFails <;>
      simp [copyStorage, hd, hs, E.vtables.typeAt_address, guard, hc, Storage.copy, hpayload,
        Payload.pointer, readAt_eq hget, hthrow, halloc] at e <;>
      simp [← e.2, copyThrows, constructionThrows, hfit, hthrow, halloc]

/-! ### The operations -/

lemma assign_threw_eq (h : Whole E W) {src : Source τ Val} {o : Object τ Val}
    (ho : sourceValue (view W) src = some o)
    (hbind : W.phase = .constant → o.type = E.staticFunction ∨ constexprBindable E o.type = true)
    (e : assign E w src luck W = some (W', threw)) :
    threw = (decide (W.phase = .run) && constructionThrows E luck o.type) := by
  have hread : src.read W = some o := (read_eq h src).trans ho
  cases hp : W.phase with
  | constant =>
    simp only [assign, hp, if_true, hread, Option.bind_eq_bind, Option.bind_some] at e
    have hthrew := congrArg Prod.snd (Option.some.inj e)
    rcases hbind hp with hst | hb
    · simpa [assignConstexpr, hst] using hthrew.symm
    · by_cases hst : o.type = E.staticFunction
      · simpa [assignConstexpr, hst] using hthrew.symm
      · simpa [assignConstexpr, hst, hb] using hthrew.symm
  | run =>
    have hne : W.phase ≠ .constant := by simp [hp]
    simp only [assign, if_neg hne, assignRuntime, hread, Option.bind_eq_bind,
      Option.bind_some] at e
    obtain ⟨s, -, e⟩ := Option.bind_eq_some_iff.mp e
    have hthrew := (Prod.mk.inj (Option.some.inj e)).2
    rw [← hthrew, emplace_threw]
    simp

omit [DecidableEq τ] in
lemma orRemove_snd {r : Option (World τ Val Fn × Bool)}
    (e : r.map (orRemove w) = some (W', threw)) : ∃ W₁, r = some (W₁, threw) := by
  obtain ⟨⟨W₁, b⟩, hr, hW⟩ := Option.map_eq_some_iff.mp e
  refine ⟨W₁, hr.trans ?_⟩
  cases b <;> simp_all [orRemove]

omit [DecidableEq τ] in
/-- The source of an operation is what it was before the target was made or cleared. -/
lemma sourceValue_of_view {src : Source τ Val} {p : Constant Fn × Option (Object τ Val)}
    (hview : view W' = Function.update (view W) w (some p)) (hsrc : ∀ r, src ≠ .target w r) :
    sourceValue (view W') src = sourceValue (view W) src := by
  cases src with
  | object o => rfl
  | target u r =>
    have huw : u ≠ w := fun e => hsrc r (e ▸ rfl)
    rw [sourceValue, sourceValue, hview, Function.update_of_ne huw]

omit [DecidableEq τ] in
lemma content_eq_view (h : Whole E W) : content W (.of u) = (view W u).bind Prod.snd := by
  by_cases hu : Live W u
  · obtain ⟨c, hc⟩ := Option.ne_none_iff_exists'.mp hu
    rw [view_of_live hc]
    rfl
  · rw [h.content_none hu, view_eq_none.mpr hu]
    rfl

lemma copyEnd_threw_eq (h : Whole E W) (hstill : W.phase = .constant → threw = false)
    (hrun : W.phase ≠ .constant → ∃ W', copyStorage E q (.of u) luck W = some (W', threw)) :
    threw = (decide (W.phase = .run) &&
      ((view W u).bind Prod.snd).any fun o => copyThrows E luck o.type) := by
  cases hp : W.phase with
  | constant => simpa using hstill hp
  | run =>
    obtain ⟨W', e⟩ := hrun (by simp [hp])
    simpa [content_eq_view h] using copyStorage_threw_eq h.store e

lemma construct_threw_eq (h : Whole E W) (hw : ¬ Live W w) {src : Source τ Val}
    (hsrc : SourceOk E W src) (e : construct E w src luck W = some (W', threw)) :
    threw = stepThrows E W.phase (view W) luck (.construct w src) := by
  obtain ⟨o, ho, hacc, hbind⟩ := sourceOk_value h hsrc
  obtain ⟨h₁, hview₁⟩ := defaultConstruct_spec h hw
  obtain ⟨W₁, e₁⟩ := orRemove_snd e
  have hother : ∀ r, src ≠ .target w r := by
    rintro r rfl
    exact hw hsrc.2.1
  have hthrew := assign_threw_eq h₁ ((sourceValue_of_view hview₁ hother).trans ho) hbind e₁
  have hphase : (defaultConstruct w W).phase = W.phase := rfl
  simpa [stepThrows, ho, hphase] using hthrew

lemma assignCallable_threw_eq (h : Whole E W) (hw : Live W w) {src : Source τ Val}
    (hsrc : SourceOk E W src) (hself : ∀ r, src ≠ .target w r)
    (e : assignCallable E w src luck W = some (W', threw)) :
    threw = stepThrows E W.phase (view W) luck (.assignCallable w src) := by
  obtain ⟨o, ho, hacc, hbind⟩ := sourceOk_value h hsrc
  obtain ⟨W₁, e₁, h₁, hphase₁, hview₁, -⟩ := reset_spec h hw
  simp only [assignCallable, e₁, Option.bind_eq_bind, Option.bind_some] at e
  have hthrew := assign_threw_eq h₁ ((sourceValue_of_view hview₁ hself).trans ho)
    (by rwa [hphase₁]) e
  simpa [stepThrows, ho, hphase₁] using hthrew

lemma copyConstruct_threw_eq (h : Whole E W) (hw : ¬ Live W w) (hu : Live W u)
    (e : copyConstruct E w u luck W = some (W', threw)) :
    threw = stepThrows E W.phase (view W) luck (.copyConstruct w u) := by
  have huw : u ≠ w := fun e => hw (e ▸ hu)
  simp only [copyConstruct, Option.bind_eq_bind, Option.bind_eq_some_iff] at e
  obtain ⟨c, -, e⟩ := e
  have hview : view ((W.setConstant w c).setStorage (.of w) .empty) u = view W u := by
    rw [h.view_create hw c, Function.update_of_ne huw]
  have hphase : ((W.setConstant w c).setStorage (.of w) .empty).phase = W.phase := rfl
  rw [stepThrows, ← hview, ← hphase]
  refine copyEnd_threw_eq (q := .of w) (h.create hw c).1 (fun hp => ?_) fun hp => ?_
  · rw [if_pos hp] at e
    exact (Prod.mk.inj (Option.some.inj e)).2.symm
  · rw [if_neg hp] at e
    exact orRemove_snd e

lemma copyAssign_threw_eq (h : Whole E W) (hw : Live W w)
    (e : copyAssign E w u luck W = some (W', threw)) :
    threw = stepThrows E W.phase (view W) luck (.copyAssign w u) := by
  by_cases hwu : w = u
  · simp only [copyAssign, hwu, if_true, Option.pure_def, Option.some.injEq, Prod.mk.injEq] at e
    simp [stepThrows, hwu, ← e.2]
  · obtain ⟨W₁, e₁, h₁, hphase₁, hview₁, -⟩ := reset_spec h hw
    simp only [copyAssign, if_neg hwu, e₁, Option.bind_eq_bind, Option.bind_some,
      Option.bind_eq_some_iff] at e
    obtain ⟨c, -, e⟩ := e
    have hview : view (W₁.setConstant w c) u = view W u := by
      rw [view_setConstant, hview₁, Function.update_of_ne (Ne.symm hwu),
        Function.update_of_ne (Ne.symm hwu)]
    have hphase : (W₁.setConstant w c).phase = W.phase := hphase₁
    rw [stepThrows, ← hview, ← hphase, decide_eq_true hwu, Bool.true_and]
    refine copyEnd_threw_eq (q := .of w) (h₁.setConstant (live_of_update hview₁) c)
      (fun hp => ?_) fun hp => ?_
    · rw [if_pos hp] at e
      exact (Prod.mk.inj (Option.some.inj e)).2.symm
    · rw [if_neg hp] at e
      exact ⟨_, e⟩

lemma exec_threw_eq (h : Whole E W) {op : Op τ Val} (hen : Enabled E W op)
    (e : exec E op luck W = some (W', threw)) :
    threw = stepThrows E W.phase (view W) luck op := by
  cases op with
  | construct w src => exact construct_threw_eq h hen.1 hen.2 e
  | assignCallable w src =>
    refine assignCallable_threw_eq h hen.1 hen.2 ?_ e
    rintro r rfl
    exact not_selfSourced h hen e rfl
  | copyConstruct w u => exact copyConstruct_threw_eq h hen.2.1 hen.2.2 e
  | copyAssign w u => exact copyAssign_threw_eq h hen.2.1 e
  | _ =>
    simp [exec] at e
    simp [stepThrows, e]

/-- **When a step throws.** In every world of a run the throwing steps are told by the phase, the
callables in the wrappers and what the construction meets: no operation but a copy or a
construction of a callable throws, and none does in constant evaluation. -/
theorem threw_eq {a : Label τ Val} (hr : Runs.Reachable (system E) W)
    (hs : (system E).step W a W') :
    a.threw = stepThrows E W.phase (view W) a.luck a.op :=
  exec_threw_eq (inv_reachable hr).toWhole hs.1 hs.2.2

theorem threw_eq_table :
    true = stepThrows (sampleEnv .copyable) (sampleWorld 3).phase (view (sampleWorld 3))
      ⟨true, false, 9⟩ (.copyAssign 1 0) := by
  have hs : ∃ W', (system (sampleEnv .copyable)).step (sampleWorld 3)
      ⟨.copyAssign 1 0, ⟨true, false, 9⟩, true⟩ W' :=
    ⟨_, ⟨rfl, Option.some_ne_none _, Option.some_ne_none _⟩, .inl rfl, rfl⟩
  obtain ⟨W', hs⟩ := hs
  exact threw_eq sampleWorld_made hs

end FunctionWrapper.ThrowConditions
