import FunctionWrapper.Histories

/-!
Where a callable is stored cannot be seen.

Two classes that differ in their storage policy, and in what the compiler makes of the layout of the
callables, have the same histories without exceptions: a larger callable is put on the heap
transparently. What can tell is a construction that throws, since memory may be missing for a callable
on the heap only, and the address of the target, which a move keeps on the heap.
-/

namespace FunctionWrapper.StoragePolicies

open FunctionWrapper.Callables FunctionWrapper.Storage FunctionWrapper.Lifecycle
open FunctionWrapper.RunInvariant FunctionWrapper.ValueSemantics FunctionWrapper.ValueMachine
open FunctionWrapper.Histories
open Runs

variable {τ Val Fn Raw Arg Ret Exc : Type} [DecidableEq τ]

/-- The class with another buffer, for callables that are laid out in another way. -/
def relaid (E : Env τ Val Fn) (size align : ℕ) (l : Layout τ) (v : Vtables τ) : Env τ Val Fn :=
  { E with
    storageSize := size
    maxAlign := align
    layout := l
    vtables := v }

/-- The other class can copy and move the same types. -/
structure SameTypes (l l' : Layout τ) : Prop where
  copyConstructible : ∀ T, l'.copyConstructible T = l.copyConstructible T
  moveConstructible : ∀ T, l'.moveConstructible T = l.moveConstructible T

variable {E : Env τ Val Fn} {L : Language τ Val Fn Raw Arg Ret Exc}
variable {size align : ℕ} {l : Layout τ} {v : Vtables τ}

omit [DecidableEq τ] in
lemma SameTypes.symm {l l' : Layout τ} (h : SameTypes l l') : SameTypes l' l :=
  ⟨fun T => (h.copyConstructible T).symm, fun T => (h.moveConstructible T).symm⟩

omit [DecidableEq τ] in
lemma accepts_relaid (h : SameTypes E.layout l) (T : τ) :
    (relaid E size align l v).accepts T = E.accepts T := by
  simp only [Env.accepts, relaid, h.copyConstructible, h.moveConstructible]
  rfl

omit [DecidableEq τ] in
lemma canRun_relaid (h : SameTypes E.layout l) {ph : Phase} {A : Values τ Val} {op : Op τ Val} :
    CanRun (relaid E size align l v) ph A op ↔ CanRun E ph A op := by
  have hsource : ∀ src, Available (relaid E size align l v) ph A src ↔ Available E ph A src := by
    intro src
    cases src with
    | object o =>
      rw [Available, Available, accepts_relaid h]
      rfl
    | target u r =>
      rw [Available, Available]
      exact and_congr_right fun _ => exists_congr fun o => and_congr_right fun _ =>
        imp_congr_right fun _ => by rw [← h.copyConstructible]; rfl
  cases op with
  | construct w src => exact and_congr_right fun _ => hsource src
  | assignCallable w src => exact and_congr_right fun _ => and_congr_left fun _ => hsource src
  | _ => exact Iff.rfl

/-- The machines of the two classes make the same steps that do not throw. -/
lemma step_relaid (h : SameTypes E.layout l) {q q' : Phase × Values τ Val}
    {e : Event τ Val Raw Ret Exc} (hthrow : ¬ e.Threw)
    (hs : (machine E L).step q e q') : (machine (relaid E size align l v) L).step q e q' := by
  cases e with
  | op op threw =>
    cases threw with
    | true => exact absurd rfl hthrow
    | false =>
      obtain ⟨hrun, -, hq⟩ := hs
      exact ⟨(canRun_relaid h).mpr hrun, nofun, hq⟩
  | call w mode cat args seen => exact hs
  | ask w hasValue bound => exact hs

lemma history_relaid (h : SameTypes E.layout l) {t : List (Event τ Val Raw Ret Exc)}
    (hthrow : ∀ e ∈ t, ¬ e.Threw) (ht : t ∈ histories L E) :
    t ∈ histories L (relaid E size align l v) := by
  rw [mem_histories_iff] at ht ⊢
  obtain ⟨q, hpath⟩ := ht
  exact ⟨q, hpath.mono fun e he _ _ hs => step_relaid h (hthrow e he) hs⟩

/-- **The storage is invisible.** With another buffer, and callables that are laid out in another way,
a class has the same histories in which nothing throws. -/
theorem storage_invisible (h : SameTypes E.layout l) (t : List (Event τ Val Raw Ret Exc))
    (hthrow : ∀ e ∈ t, ¬ e.Threw) :
    t ∈ histories L (relaid E size align l v) ↔ t ∈ histories L E := by
  refine ⟨fun ht => ?_, history_relaid h hthrow⟩
  -- the first class is the second one with the first one's storage
  have hback : t ∈ histories L (relaid (relaid E size align l v) E.storageSize E.maxAlign
      E.layout E.vtables) := history_relaid h.symm hthrow ht
  exact hback

theorem storage_invisible_word :
    (sampleEnv .copyable).fitsInSbo .owner = true ∧
    (relaid (sampleEnv .copyable) 8 16 sampleLayout sampleVtables).fitsInSbo .owner = false ∧
    ∀ t, (∀ e ∈ t, ¬ e.Threw) →
      (t ∈ histories countingCalls (relaid (sampleEnv .copyable) 8 16 sampleLayout sampleVtables) ↔
        t ∈ histories countingCalls (sampleEnv .copyable)) :=
  ⟨rfl, rfl, fun t hthrow => storage_invisible ⟨fun _ => rfl, fun _ => rfl⟩ t hthrow⟩

end FunctionWrapper.StoragePolicies
