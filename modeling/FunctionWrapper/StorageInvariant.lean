import FunctionWrapper.RunInvariant

/-!
The representation invariant of `wrapper_storage`, as its own comment states it, in every world that
a run reaches.
-/

namespace FunctionWrapper.StorageInvariant

open FunctionWrapper.Callables FunctionWrapper.Storage FunctionWrapper.Lifecycle
open FunctionWrapper.StorageForms FunctionWrapper.WrapperSpec FunctionWrapper.RunInvariant
open OwnedCells

variable {τ Val Fn : Type} [DecidableEq τ] (E : Env τ Val Fn) (W : World τ Val Fn)

/-- Empty: `vt_tagged == 0`, `obj == nullptr`. -/
def IsEmptyForm (s : WrapperStorage) : Prop := s.vtTagged = 0 ∧ s.obj = none

/-- Small: bit 0 is set, `obj` is the own buffer, and it holds an object of the vtable's type, which
fits and whose triviality bits 1 and 2 tell. -/
structure IsSmallForm (p : Place) (s : WrapperStorage) (T : τ) : Prop where
  tagged : s.isSmall = true
  vtable : s.vtablePtr = E.vtables.address T
  obj : s.obj = some (.sbo p)
  fits : E.fitsInSbo T = true
  stored : ∃ v, W.mem.get (.sbo p) = some ⟨T, v⟩
  destroy : s.hasTrivialSmallDestroy = E.layout.triviallyDestructible T
  relocate : s.hasTrivialSmallRelocate = E.layout.triviallyCopyable T

/-- Heap: no bit is set, and `obj == payload.heap` is a block that holds an object of the vtable's
type and that no other storage points to. -/
structure IsHeapForm (p : Place) (s : WrapperStorage) (T : τ) (n : ℕ) : Prop where
  untagged : s.vtTagged &&& vtableTagsMask = 0
  vtable : s.vtablePtr = E.vtables.address T
  obj : s.obj = some (.block n)
  payload : s.payload = .heap (some (.block n))
  stored : ∃ v, W.mem.get (.block n) = some ⟨T, v⟩
  alone : ∀ q t, q ≠ p → W.storages q = some t → t.obj ≠ some (.block n)

/-- The storage is in exactly one of the three forms. -/
def OneForm (p : Place) (s : WrapperStorage) : Prop :=
  (IsEmptyForm s ∧ (∀ T, ¬ IsSmallForm E W p s T) ∧ ∀ T n, ¬ IsHeapForm E W p s T n) ∨
  (¬ IsEmptyForm s ∧ (∃ T, IsSmallForm E W p s T) ∧ ∀ T n, ¬ IsHeapForm E W p s T n) ∨
  (¬ IsEmptyForm s ∧ (∀ T, ¬ IsSmallForm E W p s T) ∧ ∃ T n, IsHeapForm E W p s T n)

variable {E W}

omit [DecidableEq τ] in
lemma small_or_heap_obj {p : Place} {s : WrapperStorage} {T U : τ} {n : ℕ}
    (h : IsSmallForm E W p s T) : ¬ IsEmptyForm s ∧ ¬ IsHeapForm E W p s U n := by
  refine ⟨fun he => ?_, fun hh => ?_⟩
  · have hobj := h.obj
    rw [he.2] at hobj
    cases hobj
  · have hobj := h.obj
    rw [hh.obj] at hobj
    cases hobj

omit [DecidableEq τ] in
lemma heap_not_empty {p : Place} {s : WrapperStorage} {T : τ} {n : ℕ}
    (h : IsHeapForm E W p s T n) : ¬ IsEmptyForm s := by
  intro he
  have hobj := h.obj
  rw [he.2] at hobj
  cases hobj

omit [DecidableEq τ] in
/-- What a storage in order looks like from outside. -/
lemma oneForm_of_holds (h : StoreInv E W) {p : Place} {s : WrapperStorage}
    (hs : W.storages p = some s) : OneForm E W p s := by
  have hh := h.holds p s hs
  generalize content W p = c at hh
  cases hh with
  | empty k =>
    have he : IsEmptyForm (emptyStorage k) := ⟨rfl, rfl⟩
    exact Or.inl ⟨he, fun T hT => (small_or_heap_obj (U := T) (n := 0) hT).1 he,
      fun T n hT => heap_not_empty hT he⟩
  | small o hfit hacc hget =>
    have hsmall : IsSmallForm E W p (smallStorage E p o.type) o.type :=
      ⟨by simp, by simp, rfl, hfit, ⟨o.val, hget⟩, by simp, by simp⟩
    exact Or.inr (Or.inl ⟨(small_or_heap_obj (U := o.type) (n := 0) hsmall).1, ⟨_, hsmall⟩,
      fun T n => (small_or_heap_obj hsmall).2⟩)
  | heap o n hfit hacc hget =>
    have hp : owner W p = some (.block n) := by simp [owner, hs]
    have halone : ∀ q t, q ≠ p → W.storages q = some t → t.obj ≠ some (.block n) := by
      intro q t hq ht hobj
      apply h.other_cell hp hq
      simp [owner, ht, hobj]
    have hheap : IsHeapForm E W p (heapStorage E n o.type) o.type n :=
      ⟨E.vtables.aligned o.type, by simp, rfl, rfl, ⟨o.val, hget⟩, halone⟩
    exact Or.inr (Or.inr ⟨heap_not_empty hheap, fun T hT => (small_or_heap_obj hT).2 hheap,
      ⟨_, _, hheap⟩⟩)

/-- **The storage invariant.** After every step of every run, each storage is in exactly one of its
three forms, and an active pointer store goes with an empty storage. -/
theorem storage_invariant (h : Runs.Reachable (system E) W) {w : ℕ} {s : WrapperStorage}
    (hs : W.storages (.of w) = some s) :
    OneForm E W (.of w) s ∧
      ∀ c, W.constants w = some c → c.active = true → s.isEmpty = true := by
  have hinv := inv_reachable h
  refine ⟨oneForm_of_holds hinv.store hs, fun c hc hact => ?_⟩
  have hnone := (hinv.coherent w c _ (view_of_live hc)).alone hact
  obtain ⟨k, rfl⟩ := hinv.store.eq_empty hs hnone
  exact isEmpty_empty k

theorem storage_invariant_sample :
    OneForm (sampleEnv .copyable) (sampleWorld 4) (.of 1)
        ⟨24, some (.block 1), .heap (some (.block 1))⟩ ∧
      ∀ c, (sampleWorld 4).constants 1 = some c → c.active = true →
        (⟨24, some (.block 1), .heap (some (.block 1))⟩ : WrapperStorage).isEmpty = true :=
  storage_invariant sampleWorld_reachable rfl

end FunctionWrapper.StorageInvariant
