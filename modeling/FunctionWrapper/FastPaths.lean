import FunctionWrapper.RunInvariant

/-!
The trivial fast paths beside the vtable of the stored type.

The tag bits of a storage send `reset`, copies and moves past the vtable: the buffer is cleared or
copied as bytes. Where a storage is in order, its bits tell the truth about the type it stores, and
either path leaves the same memory and the same storages.
-/

namespace FunctionWrapper.FastPaths

open FunctionWrapper.Callables FunctionWrapper.Storage FunctionWrapper.Lifecycle
open FunctionWrapper.StorageForms FunctionWrapper.StorageSpec FunctionWrapper.WrapperSpec
open FunctionWrapper.RunInvariant
open OwnedCells

variable {τ Val Fn : Type} [DecidableEq τ] (E : Env τ Val Fn)

/-- A call of the `destroy` function of the storage's vtable, if it has one. -/
def vtableDestroy (p : Place) (W : World τ Val Fn) : Option (World τ Val Fn) := do
  let s ← W.storages p
  if s.vtablePtr ≠ 0 then
    let T ← E.vtables.typeAt s.vtablePtr
    let (m, s) ← Storage.destroy E T p W.mem s
    return { W with mem := m }.setStorage p s
  else return W

/-- A call of the `copy` function of the source's vtable, if the source has one. -/
def vtableCopy (dst src : Place) (luck : Luck) (W : World τ Val Fn) :
    Option (World τ Val Fn × Bool) := do
  let d ← W.storages dst
  let s ← W.storages src
  if s.vtablePtr ≠ 0 then
    let T ← E.vtables.typeAt s.vtablePtr
    guard (E.layout.copyConstructible T)
    let (m, d, threw) ← copy E T dst src luck W.mem d s
    return ({ W with mem := m }.setStorage dst d, threw)
  else return (W, false)

variable {E} {m : Mem τ Val} {p q : Place} {s d : WrapperStorage} {c : Option (Object τ Val)}

omit [DecidableEq τ] in
lemma small_of_trivialDestroy (h : Holds E m p s c) (ht : s.hasTrivialSmallDestroy = true) :
    ∃ o, m.get (.sbo p) = some o ∧ s = smallStorage E p o.type ∧
      E.layout.triviallyDestructible o.type = true := by
  cases h with
  | empty k => simp at ht
  | small o _ _ hget => exact ⟨o, hget, rfl, by simpa using ht⟩
  | heap o n => simp at ht

omit [DecidableEq τ] in
lemma small_of_trivialRelocate (h : Holds E m p s c) (ht : s.hasTrivialSmallRelocate = true) :
    ∃ o, c = some o ∧ m.get (.sbo p) = some o ∧ s = smallStorage E p o.type ∧
      E.fitsInSbo o.type = true ∧ E.layout.triviallyCopyable o.type = true := by
  cases h with
  | empty k => simp at ht
  | small o hfit _ hget => exact ⟨o, rfl, hget, rfl, hfit, by simpa using ht⟩
  | heap o n => simp at ht

omit [DecidableEq τ] in
lemma get_overwrite_of_ne {k : Site} (hk : k ≠ .sbo q) : (overwrite E q m).get k = m.get k := by
  unfold overwrite
  split
  · split
    · rw [Cells.get_drop, Function.update_of_ne hk]
    · rw [Cells.get_forget, Function.update_of_ne hk]
  · rfl

lemma destroy_eq {o : Object τ Val} (hget : m.get (.sbo p) = some o)
    (ht : E.layout.triviallyDestructible o.type = true) :
    Storage.destroy E o.type p m (smallStorage E p o.type) =
      some (destroyTrivialSmallStorage E p m) := by
  simp [Storage.destroy, destroyAt_eq hget, destroyTrivialSmallStorage, clearStorage,
    overwrite_drop, overwrite_trivial hget ht]

lemma copy_eq {o : Object τ Val} (hget : m.get (.sbo p) = some o)
    (ht : E.layout.triviallyCopyable o.type = true) {luck : Luck} (hcalm : luck.throws = false) :
    copy E o.type q p luck m d (smallStorage E p o.type) =
      (copyTrivialSmallStorage E q p m (smallStorage E p o.type)).map fun r => (r.1, r.2, false) := by
  have hpayload : (smallStorage E p o.type).payload = .sbo := rfl
  simp [copy, readAt_eq hget, hcalm, copyTrivialSmallStorage, hpayload, hget, ht]

lemma move_eq {o : Object τ Val} (hpq : p ≠ q) (hget : m.get (.sbo p) = some o)
    (hfit : E.fitsInSbo o.type = true) (ht : E.layout.triviallyCopyable o.type = true) :
    move E o.type q p m d (smallStorage E p o.type) =
      moveTrivialSmallStorage E q p m (smallStorage E p o.type) := by
  have hpayload : (smallStorage E p o.type).payload = .sbo := rfl
  have hnothrow : E.layout.nothrowMoveConstructible o.type = true := by
    simp only [Env.fitsInSbo, Bool.and_eq_true] at hfit
    exact hfit.2
  have hkept : (overwrite E q m).get (.sbo p) = some o :=
    (get_overwrite_of_ne (by simpa using hpq)).trans hget
  have hget' : ((overwrite E q m).put (.sbo q) o).get (.sbo p) = some o := by
    rw [Cells.get_put, Function.update_of_ne (by simpa using hpq), hkept]
  simp [move, readAt_eq hget, hnothrow, guard, destroyAt_eq hget', clearStorage, overwrite_drop,
    moveTrivialSmallStorage, copyTrivialSmallStorage, hpayload, hget, ht,
    overwrite_trivial hget' (E.layout.destructible_of_copyable _ ht)]

/-! ### The operations -/

variable {W : World τ Val Fn} {luck : Luck}

lemma resetStorage_eq (h : StoreInv E W) (hs : W.storages p = some s)
    (ht : s.hasTrivialSmallDestroy = true) :
    resetStorage E p W = vtableDestroy E p W ∧ (vtableDestroy E p W).isSome = true := by
  obtain ⟨o, hget, rfl, hdestroy⟩ := small_of_trivialDestroy (h.holds p s hs) ht
  have hslow : vtableDestroy E p W =
      some (({ W with mem := (destroyTrivialSmallStorage E p W.mem).1 } : World τ Val Fn).setStorage p
        (destroyTrivialSmallStorage E p W.mem).2) := by
    simp [vtableDestroy, hs, E.vtables.typeAt_address, destroy_eq hget hdestroy]
  refine ⟨?_, by rw [hslow]; rfl⟩
  rw [hslow]
  simp [resetStorage, hs, hdestroy]

lemma copyStorage_eq (h : StoreInv E W) (hk : E.kind = .copyable) (hd : W.storages q = some d)
    (hs : W.storages p = some s) (ht : s.hasTrivialSmallRelocate = true)
    (hcalm : luck.throws = false) :
    copyStorage E q p luck W = vtableCopy E q p luck W ∧
      ∃ W', vtableCopy E q p luck W = some (W', false) := by
  obtain ⟨o, hc, hget, rfl, -, hcopy⟩ := small_of_trivialRelocate (h.holds p s hs) ht
  have hcons : E.layout.copyConstructible o.type = true := copyable_of_content h hk hs hc
  have hpayload : (smallStorage E p o.type).payload = .sbo := rfl
  have hfast : copyTrivialSmallStorage E q p W.mem (smallStorage E p o.type) =
      some ((overwrite E q W.mem).put (.sbo q) o,
        ⟨(smallStorage E p o.type).vtTagged, some (.sbo q), .sbo⟩) := by
    simp [copyTrivialSmallStorage, hpayload, hget, hcopy]
  have hslow : vtableCopy E q p luck W =
      some (({ W with mem := (overwrite E q W.mem).put (.sbo q) o } : World τ Val Fn).setStorage q
        ⟨(smallStorage E p o.type).vtTagged, some (.sbo q), .sbo⟩, false) := by
    simp [vtableCopy, hd, hs, E.vtables.typeAt_address, hcons, guard,
      copy_eq (d := d) hget hcopy hcalm, hfast]
  refine ⟨?_, _, hslow⟩
  rw [hslow]
  simp [copyStorage, hd, hs, hcopy, hfast]

lemma moveStorage_eq (h : StoreInv E W) (hpq : p ≠ q) (hd : W.storages q = some d)
    (hs : W.storages p = some s) (ht : s.hasTrivialSmallRelocate = true) :
    moveStorage E q p W = vtableMove E q p W ∧ (vtableMove E q p W).isSome = true := by
  obtain ⟨o, -, hget, rfl, hfit, hcopy⟩ := small_of_trivialRelocate (h.holds p s hs) ht
  have hpayload : (smallStorage E p o.type).payload = .sbo := rfl
  obtain ⟨⟨m, d', s'⟩, hfast⟩ : ∃ r, moveTrivialSmallStorage E q p W.mem (smallStorage E p o.type) =
      some r := by
    simp [moveTrivialSmallStorage, copyTrivialSmallStorage, hpayload, hget, hcopy]
  have hslow : vtableMove E q p W =
      some ((({ W with mem := m } : World τ Val Fn).setStorage q d').setStorage p s') := by
    simp [vtableMove, hd, hs, E.vtables.typeAt_address, move_eq (d := d) hpq hget hfit hcopy, hfast]
  refine ⟨?_, by rw [hslow]; rfl⟩
  rw [hslow]
  simp [moveStorage, hs, hcopy, hfast]

/-- **The fast paths do what the vtable does.** Where the storages are in order, a wrapper that is
reset, copied or moved past the vtable of its callable leaves the same memory and the same storages
as through it. -/
theorem fast_paths_agree (h : StoreInv E W) (hs : W.storages p = some s) :
    (s.hasTrivialSmallDestroy = true →
      resetStorage E p W = vtableDestroy E p W ∧ (vtableDestroy E p W).isSome = true) ∧
    (s.hasTrivialSmallRelocate = true → ∀ q d, p ≠ q → W.storages q = some d →
      (moveStorage E q p W = vtableMove E q p W ∧ (vtableMove E q p W).isSome = true) ∧
      ∀ luck, E.kind = .copyable → luck.throws = false →
        copyStorage E q p luck W = vtableCopy E q p luck W ∧
          ∃ W', vtableCopy E q p luck W = some (W', false)) :=
  ⟨resetStorage_eq h hs, fun ht _ _ hpq hd => ⟨moveStorage_eq h hpq hd hs ht,
    fun _ hk hcalm => copyStorage_eq h hk hd hs ht hcalm⟩⟩

/-- A trivially copyable callable in the buffer of the first wrapper; the second is empty. -/
def counterRun : List (Op Sample ℕ) :=
  [.start, .construct 0 (.object ⟨.counter, 7⟩), .defaultConstruct 1]

def counterWorld (n : ℕ) : World Sample ℕ ℕ := play (sampleEnv .copyable) (counterRun.take n)

lemma counterWorld_reachable :
    Runs.Reachable (system (sampleEnv .copyable)) (counterWorld 3) := by
  have h1 : Runs.Reachable (system (sampleEnv .copyable)) (counterWorld 1) := started_reachable _
  have h2 : Runs.Reachable (system (sampleEnv .copyable)) (counterWorld 2) :=
    h1.step (a := ⟨.construct 0 (.object ⟨.counter, 7⟩), ⟨false, false, 1⟩, false⟩)
      ⟨⟨not_not_intro rfl, rfl, nofun⟩, rfl, rfl⟩
  exact h2.step (a := ⟨.defaultConstruct 1, ⟨false, false, 2⟩, false⟩) ⟨not_not_intro rfl, rfl, rfl⟩

/-- All three bits of the counter's storage are set. -/
theorem fast_paths_agree_counter :
    (resetStorage (sampleEnv .copyable) (.of 0) (counterWorld 3) =
        vtableDestroy (sampleEnv .copyable) (.of 0) (counterWorld 3) ∧
      (vtableDestroy (sampleEnv .copyable) (.of 0) (counterWorld 3)).isSome = true) ∧
    (moveStorage (sampleEnv .copyable) (.of 1) (.of 0) (counterWorld 3) =
        vtableMove (sampleEnv .copyable) (.of 1) (.of 0) (counterWorld 3) ∧
      (vtableMove (sampleEnv .copyable) (.of 1) (.of 0) (counterWorld 3)).isSome = true) ∧
    copyStorage (sampleEnv .copyable) (.of 1) (.of 0) ⟨false, false, 3⟩ (counterWorld 3) =
        vtableCopy (sampleEnv .copyable) (.of 1) (.of 0) ⟨false, false, 3⟩ (counterWorld 3) ∧
      ∃ W', vtableCopy (sampleEnv .copyable) (.of 1) (.of 0) ⟨false, false, 3⟩ (counterWorld 3) =
        some (W', false) := by
  obtain ⟨hreset, hmove⟩ := fast_paths_agree (inv_reachable counterWorld_reachable).store
    (p := .of 0) (s := ⟨15, some (.sbo (.of 0)), .sbo⟩) rfl
  have hcopies := hmove rfl (.of 1) .empty (by decide) rfl
  exact ⟨hreset rfl, hcopies.1, hcopies.2 _ rfl rfl⟩

end FunctionWrapper.FastPaths
