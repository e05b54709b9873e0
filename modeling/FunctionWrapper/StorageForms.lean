import FunctionWrapper.Lifecycle

/-!
The three forms of a storage, and the changes of memory and storages that keep them.

The storages are the owners of the cells that hold objects: the owner of a cell is the storage whose
`obj` points to it. A lifecycle function changes one or two storages and at most one cell, and
the lemmas on `StoreInv` say what that does to the contents of the storages.
-/

namespace FunctionWrapper.StorageForms

open FunctionWrapper.Callables FunctionWrapper.Storage FunctionWrapper.Lifecycle
open OwnedCells TaggedWord

variable {τ Val Fn : Type} (E : Env τ Val Fn)

def emptyStorage (k : Payload) : WrapperStorage := ⟨0, none, k⟩

def smallStorage (p : Place) (T : τ) : WrapperStorage :=
  ⟨E.vtables.address T ||| E.tags T, some (.sbo p), .sbo⟩

def heapStorage (n : ℕ) (T : τ) : WrapperStorage :=
  ⟨E.vtables.address T, some (.block n), .heap (some (.block n))⟩

/-- The storage at `p` is well formed and holds the object. -/
inductive Holds (m : Mem τ Val) (p : Place) : WrapperStorage → Option (Object τ Val) → Prop
  | empty (k : Payload) : Holds m p (emptyStorage k) none
  | small (o : Object τ Val) (hfit : E.fitsInSbo o.type = true) (hacc : E.accepts o.type = true)
      (hget : m.get (.sbo p) = some o) : Holds m p (smallStorage E p o.type) (some o)
  | heap (o : Object τ Val) (n : ℕ) (hfit : E.fitsInSbo o.type = false)
      (hacc : E.accepts o.type = true) (hget : m.get (.block n) = some o) :
      Holds m p (heapStorage E n o.type) (some o)

lemma under_tags (T : τ) : Under vtableTagsMask (E.tags T) := by
  unfold Env.tags
  cases E.layout.triviallyDestructible T <;> cases E.layout.triviallyCopyable T <;> decide

lemma under_isSmall : Under vtableTagsMask vtableTagIsSmall := by decide
lemma under_destroy : Under vtableTagsMask vtableTagTrivialDestroy := by decide
lemma under_relocate : Under vtableTagsMask vtableTagTrivialRelocate := by decide

@[simp] lemma address_ne_zero (T : τ) : E.vtables.address T ≠ 0#64 := E.vtables.ne_zero T

section Empty

variable (k : Payload)

@[simp] lemma vtablePtr_empty : (emptyStorage k).vtablePtr = 0#64 := by
  simp [WrapperStorage.vtablePtr, emptyStorage]

@[simp] lemma isEmpty_empty : (emptyStorage k).isEmpty = true := rfl

@[simp] lemma isSmall_empty : (emptyStorage k).isSmall = false := by
  simp [WrapperStorage.isSmall, emptyStorage]

@[simp] lemma isHeap_empty : (emptyStorage k).isHeap = false := rfl

@[simp] lemma trivialDestroy_empty : (emptyStorage k).hasTrivialSmallDestroy = false := by
  simp [WrapperStorage.hasTrivialSmallDestroy, emptyStorage]

@[simp] lemma trivialRelocate_empty : (emptyStorage k).hasTrivialSmallRelocate = false := by
  simp [WrapperStorage.hasTrivialSmallRelocate, emptyStorage]

@[simp] lemma obj_empty : (emptyStorage k).obj = none := rfl
lemma empty_eq : WrapperStorage.empty = emptyStorage (.heap none) := rfl

end Empty

section Small

variable (p : Place) (T : τ)

@[simp] lemma vtablePtr_small : (smallStorage E p T).vtablePtr = E.vtables.address T :=
  address_join (E.vtables.aligned T) (under_tags E T)

@[simp] lemma isEmpty_small : (smallStorage E p T).isEmpty = false := by
  simp [WrapperStorage.isEmpty, smallStorage]

@[simp] lemma isSmall_small : (smallStorage E p T).isSmall = true := by
  unfold WrapperStorage.isSmall smallStorage
  rw [tag_join (E.vtables.aligned T) under_isSmall]
  unfold Env.tags
  cases E.layout.triviallyDestructible T <;> cases E.layout.triviallyCopyable T <;> decide

@[simp] lemma trivialDestroy_small :
    (smallStorage E p T).hasTrivialSmallDestroy = E.layout.triviallyDestructible T := by
  unfold WrapperStorage.hasTrivialSmallDestroy smallStorage
  rw [tag_join (E.vtables.aligned T) under_destroy]
  unfold Env.tags
  cases E.layout.triviallyDestructible T <;> cases E.layout.triviallyCopyable T <;> decide

@[simp] lemma trivialRelocate_small :
    (smallStorage E p T).hasTrivialSmallRelocate = E.layout.triviallyCopyable T := by
  unfold WrapperStorage.hasTrivialSmallRelocate smallStorage
  rw [tag_join (E.vtables.aligned T) under_relocate]
  unfold Env.tags
  cases E.layout.triviallyDestructible T <;> cases E.layout.triviallyCopyable T <;> decide

@[simp] lemma obj_small : (smallStorage E p T).obj = some (.sbo p) := rfl

end Small

section Heap

variable (n : ℕ) (T : τ)

@[simp] lemma vtablePtr_heap : (heapStorage E n T).vtablePtr = E.vtables.address T :=
  address_bare (E.vtables.aligned T)

@[simp] lemma isEmpty_heap : (heapStorage E n T).isEmpty = false := by
  simp [WrapperStorage.isEmpty, heapStorage]

lemma no_tag_heap {b : BitVec 64} (hb : Under vtableTagsMask b) :
    (heapStorage E n T).vtTagged &&& b = 0 := (E.vtables.aligned T).and_of_under hb

@[simp] lemma isSmall_heap : (heapStorage E n T).isSmall = false := by
  simp [WrapperStorage.isSmall, no_tag_heap E n T under_isSmall]

@[simp] lemma isHeap_heap : (heapStorage E n T).isHeap = true := by
  simp [WrapperStorage.isHeap]

@[simp] lemma trivialDestroy_heap : (heapStorage E n T).hasTrivialSmallDestroy = false := by
  simp [WrapperStorage.hasTrivialSmallDestroy, no_tag_heap E n T under_destroy]

@[simp] lemma trivialRelocate_heap : (heapStorage E n T).hasTrivialSmallRelocate = false := by
  simp [WrapperStorage.hasTrivialSmallRelocate, no_tag_heap E n T under_relocate]

@[simp] lemma obj_heap : (heapStorage E n T).obj = some (.block n) := rfl

end Heap

variable {E}

lemma Holds.congr {m m' : Mem τ Val} {p : Place} {s : WrapperStorage} {c : Option (Object τ Val)}
    (h : Holds E m p s c) (hm : ∀ k, s.obj = some k → m'.get k = m.get k) : Holds E m' p s c := by
  cases h with
  | empty k => exact .empty k
  | small o hfit hacc hget => exact .small o hfit hacc ((hm _ rfl).trans hget)
  | heap o n hfit hacc hget => exact .heap o n hfit hacc ((hm _ rfl).trans hget)

/-- The cell a storage points to. -/
def owner (W : World τ Val Fn) (p : Place) : Option Site := (W.storages p).bind (·.obj)

/-- The callable a storage holds. -/
def content (W : World τ Val Fn) (p : Place) : Option (Object τ Val) := (owner W p).bind W.mem.get

variable (E) in
/-- Every storage has one of the three forms, and owns the cell it points to. -/
structure StoreInv (W : World τ Val Fn) : Prop where
  sound : W.mem.Sound
  owned : W.mem.OwnedBy (owner W)
  holds : ∀ p s, W.storages p = some s → Holds E W.mem p s (content W p)

lemma owner_setStorage (W : World τ Val Fn) (p : Place) (s : WrapperStorage) :
    owner (W.setStorage p s) = Function.update (owner W) p s.obj := by
  funext q
  by_cases h : q = p
  · subst h; simp [owner, World.setStorage]
  · simp [owner, World.setStorage, h]

namespace StoreInv

variable {W : World τ Val Fn} (h : StoreInv E W)

include h

lemma owner_sbo {p q : Place} (hq : owner W q = some (.sbo p)) : q = p := by
  obtain ⟨s, hs, ho⟩ := Option.bind_eq_some_iff.mp hq
  have hh := h.holds q s hs
  generalize content W q = c at hh
  cases hh with
  | empty k => cases ho
  | small o =>
    obtain rfl : q = p := by simpa using ho
    rfl
  | heap o n => simp at ho

lemma sbo_free {p : Place} (hp : owner W p ≠ some (.sbo p)) : W.mem.get (.sbo p) = none := by
  by_contra hne
  obtain ⟨q, hq⟩ := h.owned.owner _ hne
  have hqp := h.owner_sbo hq
  subst hqp
  exact hp hq

lemma other_cell {p q : Place} {k : Site} (hp : owner W p = some k) (hq : q ≠ p) :
    owner W q ≠ some k := fun hqk => hq (h.owned.unique _ _ _ hqk hp)

lemma owner_none_of_content {p : Place} (hp : content W p = none) : owner W p = none := by
  rcases ho : owner W p with _ | k
  · rfl
  · have hget : W.mem.get k = none := by simpa [content, ho] using hp
    exact absurd hget (h.owned.occupied p k ho)

lemma eq_empty {p : Place} {s : WrapperStorage} (hs : W.storages p = some s)
    (hp : content W p = none) : ∃ k, s = emptyStorage k := by
  have hh := h.holds p s hs
  rw [hp] at hh
  cases hh with
  | empty k => exact ⟨k, rfl⟩

lemma accepts {p : Place} {s : WrapperStorage} (hs : W.storages p = some s) {o : Object τ Val}
    (ho : content W p = some o) : E.accepts o.type = true := by
  have hh := h.holds p s hs
  rw [ho] at hh
  generalize e : some o = c at hh
  cases hh with
  | empty => cases e
  | small o' _ hacc => rw [Option.some.inj e]; exact hacc
  | heap o' _ _ hacc => rw [Option.some.inj e]; exact hacc

/-! ### Changes -/

lemma put {p : Place} {k : Site} {o : Object τ Val} {s : WrapperStorage}
    (hp : owner W p = none) (hk : W.mem.get k = none) (hobj : s.obj = some k)
    (hs : Holds E (W.mem.put k o) p s (some o)) :
    StoreInv E (({ W with mem := W.mem.put k o } : World τ Val Fn).setStorage p s) ∧
      content (({ W with mem := W.mem.put k o } : World τ Val Fn).setStorage p s) =
        Function.update (content W) p (some o) := by
  set W' : World τ Val Fn := ({ W with mem := W.mem.put k o } : World τ Val Fn).setStorage p s
  have howner : owner W' = Function.update (owner W) p (some k) := by
    rw [← hobj]
    exact owner_setStorage _ p s
  have hcell : ∀ q l, q ≠ p → owner W q = some l → (W.mem.put k o).get l = W.mem.get l := by
    intro q l _ hl
    have hlk : l ≠ k := fun e => h.owned.occupied q l hl (e ▸ hk)
    rw [Cells.get_put, Function.update_of_ne hlk]
  have hcontent : content W' = Function.update (content W) p (some o) := by
    funext q
    by_cases hq : q = p
    · subst hq
      have hget : W'.mem.get k = some o := by
        change (W.mem.put k o).get k = some o
        rw [Cells.get_put, Function.update_self]
      simp [content, howner, hget]
    · rw [Function.update_of_ne hq, content, howner, Function.update_of_ne hq, content]
      rcases ho : owner W q with _ | l
      · rfl
      · exact hcell q l hq ho
  refine ⟨⟨h.sound.put hk o, howner ▸ h.owned.put hp hk o, fun q t ht => ?_⟩, hcontent⟩
  rw [hcontent]
  by_cases hq : q = p
  · subst hq
    have hts : t = s := by simpa [W', World.setStorage] using ht.symm
    rw [Function.update_self, hts]
    exact hs
  · rw [Function.update_of_ne hq]
    have ht' : W.storages q = some t := by simpa [W', World.setStorage, hq] using ht
    exact (h.holds q t ht').congr fun l hl => hcell q l hq (by simp [owner, ht', hl])

lemma drop {p : Place} {k : Site} (hp : owner W p = some k) (l : Payload) :
    StoreInv E (({ W with mem := W.mem.drop k } : World τ Val Fn).setStorage p (emptyStorage l)) ∧
      content (({ W with mem := W.mem.drop k } : World τ Val Fn).setStorage p (emptyStorage l)) =
        Function.update (content W) p none := by
  set W' : World τ Val Fn :=
    ({ W with mem := W.mem.drop k } : World τ Val Fn).setStorage p (emptyStorage l)
  have howner : owner W' = Function.update (owner W) p none := owner_setStorage _ p _
  have hcell : ∀ q j, q ≠ p → owner W q = some j → (W.mem.drop k).get j = W.mem.get j := by
    intro q j hq hj
    have hjk : j ≠ k := fun e => h.other_cell hp hq (e ▸ hj)
    rw [Cells.get_drop, Function.update_of_ne hjk]
  have hcontent : content W' = Function.update (content W) p none := by
    funext q
    by_cases hq : q = p
    · subst hq
      simp [content, howner]
    · rw [Function.update_of_ne hq, content, howner, Function.update_of_ne hq, content]
      rcases ho : owner W q with _ | j
      · rfl
      · exact hcell q j hq ho
  refine ⟨⟨h.sound.drop k, howner ▸ h.owned.drop hp, fun q t ht => ?_⟩, hcontent⟩
  rw [hcontent]
  by_cases hq : q = p
  · subst hq
    have hts : t = emptyStorage l := by simpa [W', World.setStorage] using ht.symm
    rw [Function.update_self, hts]
    exact .empty l
  · rw [Function.update_of_ne hq]
    have ht' : W.storages q = some t := by simpa [W', World.setStorage, hq] using ht
    exact (h.holds q t ht').congr fun j hj => hcell q j hq (by simp [owner, ht', hj])

/-- A block of the heap passes from one storage to another. -/
lemma handOver {p q : Place} {n : ℕ} {T : τ} (hpq : p ≠ q)
    (hs : W.storages p = some (heapStorage E n T)) (hq : owner W q = none) (l : Payload) :
    StoreInv E ((W.setStorage q (heapStorage E n T)).setStorage p (emptyStorage l)) ∧
      content ((W.setStorage q (heapStorage E n T)).setStorage p (emptyStorage l)) =
        Function.update (Function.update (content W) p none) q (content W p) := by
  set W' : World τ Val Fn := (W.setStorage q (heapStorage E n T)).setStorage p (emptyStorage l)
  have hp : owner W p = some (.block n) := by simp [owner, hs]
  have howner : owner W' = Function.update (Function.update (owner W) p none) q (some (.block n)) := by
    rw [owner_setStorage, owner_setStorage, Function.update_comm hpq]
    rfl
  have hcontent : content W' = Function.update (Function.update (content W) p none) q
      (content W p) := by
    funext r
    have hmem : W'.mem = W.mem := rfl
    by_cases hrq : r = q
    · subst hrq
      simp [content, howner, hp, hmem]
    · by_cases hrp : r = p
      · subst hrp
        simp [content, howner, hrq]
      · simp [content, howner, hrq, hrp, hmem]
  refine ⟨⟨h.sound, howner ▸ h.owned.handOver hp hq, fun r t ht => ?_⟩, hcontent⟩
  rw [hcontent]
  have hold := h.holds p _ hs
  by_cases hrq : r = q
  · subst hrq
    have hts : t = heapStorage E n T := by
      simpa [W', World.setStorage, Ne.symm hpq] using ht.symm
    rw [Function.update_self, hts]
    rcases hc : content W p with _ | o
    · obtain ⟨k, hk⟩ := h.eq_empty hs hc
      have := congrArg WrapperStorage.isEmpty hk
      simp at this
    · rw [hc] at hold
      generalize hst : heapStorage E n T = st at hold
      cases hold with
      | small _ hfit =>
        have := congrArg WrapperStorage.isSmall hst
        simp at this
      | heap _ n' hfit hacc hget => exact .heap o n' hfit hacc hget
  · rw [Function.update_of_ne hrq]
    by_cases hrp : r = p
    · subst hrp
      have hts : t = emptyStorage l := by simpa [W', World.setStorage] using ht.symm
      rw [Function.update_self, hts]
      exact .empty l
    · rw [Function.update_of_ne hrp]
      have ht' : W.storages r = some t := by simpa [W', World.setStorage, hrp, hrq] using ht
      exact h.holds r t ht'

lemma setFree {p : Place} (hp : owner W p = none) (os : Option WrapperStorage)
    (hos : ∀ s, os = some s → ∃ l, s = emptyStorage l) :
    StoreInv E { W with storages := Function.update W.storages p os } ∧
      content { W with storages := Function.update W.storages p os } = content W := by
  set W' : World τ Val Fn := { W with storages := Function.update W.storages p os }
  have howner : owner W' = owner W := by
    funext q
    by_cases hq : q = p
    · subst hq
      rw [hp]
      rcases os with _ | s
      · simp [owner, W']
      · obtain ⟨l, rfl⟩ := hos s rfl
        simp [owner, W']
    · simp [owner, W', hq]
  have hcontent : content W' = content W := by
    funext q
    rw [content, howner]
    rfl
  refine ⟨⟨h.sound, howner ▸ h.owned, fun q t ht => ?_⟩, hcontent⟩
  rw [hcontent]
  by_cases hq : q = p
  · subst hq
    obtain ⟨l, rfl⟩ := hos t (by simpa [W'] using ht)
    have hnone : content W q = none := by simp [content, hp]
    rw [hnone]
    exact .empty l
  · have ht' : W.storages q = some t := by simpa [W', hq] using ht
    exact h.holds q t ht'

lemma write {p : Place} {k : Site} {o : Object τ Val} (hp : owner W p = some k)
    (hk : W.mem.get k = some o) (v : Val) :
    StoreInv E { W with mem := W.mem.write k { o with val := v } } ∧
      content { W with mem := W.mem.write k { o with val := v } } =
        Function.update (content W) p (some { o with val := v }) := by
  set W' : World τ Val Fn := { W with mem := W.mem.write k { o with val := v } }
  have hget : ∀ l, W'.mem.get l = Function.update W.mem.get k (some { o with val := v }) l := by
    intro l
    rw [← Cells.get_write W.mem hk]
  have hcontent : content W' = Function.update (content W) p (some { o with val := v }) := by
    funext q
    by_cases hq : q = p
    · subst hq
      have : owner W' q = some k := hp
      simp [content, this, hget]
    · rw [Function.update_of_ne hq]
      rcases ho : owner W q with _ | l
      · have : owner W' q = none := ho
        simp [content, this, ho]
      · have hlk : l ≠ k := fun e => h.other_cell hp hq (e ▸ ho)
        have : owner W' q = some l := ho
        simp [content, this, ho, hget, hlk]
  refine ⟨⟨h.sound.write k _, h.owned.write hk _, fun q t ht => ?_⟩, hcontent⟩
  rw [hcontent]
  have hh := h.holds q t ht
  by_cases hq : q = p
  · subst hq
    have hc : content W q = some o := by simp [content, hp, hk]
    have hobj : t.obj = some k := by simpa [owner, show W.storages q = some t from ht] using hp
    rw [Function.update_self]
    rw [hc] at hh
    have hnew : W'.mem.get k = some { o with val := v } := by rw [hget, Function.update_self]
    cases hh with
    | small _ hfit hacc =>
      obtain rfl : k = .sbo q := by simpa using hobj.symm
      exact .small { o with val := v } hfit hacc hnew
    | heap _ n hfit hacc =>
      obtain rfl : k = .block n := by simpa using hobj.symm
      exact .heap { o with val := v } n hfit hacc hnew
  · rw [Function.update_of_ne hq]
    refine hh.congr fun l hl => ?_
    have hlk : l ≠ k := fun e =>
      h.other_cell hp hq (by simp [owner, show W.storages q = some t from ht, hl, e])
    rw [hget, Function.update_of_ne hlk]

end StoreInv

end FunctionWrapper.StorageForms
